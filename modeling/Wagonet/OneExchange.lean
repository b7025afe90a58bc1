import Wagonet.ClientUses
import Wagonet.ExchangeRuns
import Wagonet.WholeExchanges

/-!
A call of `handle_message`, from its beginning to its end.

It makes at most one exchange, on one connection, with the request it was given. If
that fails then the stream is taken out of the cell before the call returns, and the
connection is not used any more; otherwise the stream stays there, unless a ping on it
fails before the call returns.
-/

namespace Wagonet

open Library ClientRuntime

/-- How far a call has come. -/
inductive Stage
  | before
  | ended (c : Conn) (r : Except Error (List UInt8))
  /-- the exchange has failed, and the cell was emptied -/
  | cleared (c : Conn) (e : Error)

namespace Stage

/-- What a call returns. -/
def Returns (r : Except Error (List UInt8)) : Stage → Prop
  | .before => ∃ e, r = .error e
  | .ended _ r' => r = r' ∧ ∃ response, r = .ok response
  | .cleared _ e => r = .error e

def emptied : Stage → Stage
  | .ended c (.error e) => .cleared c e
  | q => q

/-- The rules for a call: one exchange, and the cell is emptied only after it has failed. -/
def discipline (command : UInt32) (data : List UInt8) :
    Discipline ClientAwaits ClientCalls Stage ClientFields where
  waits q _ a :=
    match a with
    | .exchange _ x _ => q = .before ∧ ∃ cha m, x = .request command data cha m
    | _ => True
  waited q a r :=
    match a, r with
    | .exchange c _ _, (_, r) => .ended c r
    | _, _ => q
  calls q c :=
    match c with
    | .setStream none => ∃ c e, q = .ended c (.error e)
    | .setStream (some _) => q = .before
    | _ => True
  called q c _ :=
    match c with
    | .setStream none => q.emptied
    | _ => q
  timed q _ := q = .before
  lapsed q := q

end Stage

/-! ### The rules are obeyed -/

section

variable {command : UInt32} {data : List UInt8} {K : ClientKind} {s : ClientFields} {q : Stage}

open Stage

/-- Stopping ping tasks does not matter to a call. -/
theorem PingState.stopPingTask_keeps :
    (stopPingTask s : Task ClientIO ClientFields (Except Error Unit)).Obeys
      (discipline command data) (fun q' s' r => r = .ok () ∧ s' = s ∧ q' = q) q := by
  refine stopPingTask_obeys_of ?_ rfl
  rintro _ c rfl hc
  cases c <;> first | exact ⟨trivial, fun _ => rfl⟩ | cases hc

namespace Client

/-- Connecting makes no exchange, and does not empty the cell. -/
theorem ensureConnected_before :
    (ensureConnected K s).Obeys (discipline command data) (fun q' _ _ => q' = .before)
      .before := by
  refine connects_ensureConnected.obeys (fun a s ha => ?_) (fun s => ⟨rfl, rfl⟩) fun c hc => ?_
  · cases a <;> first | exact ⟨trivial, fun _ => rfl⟩ | cases ha
  · cases c with
    | setStream v =>
        cases v with
        | none => cases hc
        | some c => exact ⟨rfl, fun _ => rfl⟩
    | _ => exact ⟨trivial, fun _ => rfl⟩

/-- A call makes one exchange at most, and empties the cell if and only if that has
failed. -/
theorem handleMessage_once :
    (handleMessage K command data s).Obeys (discipline command data)
      (fun q' _ r => q'.Returns r) .before := by
  refine Async.obeys_bind (ensureConnected_before.mono fun q s r hq => ?_)
  subst hq
  match r with
  | .error e => exact ⟨e, rfl⟩
  | .ok () =>
  refine Async.obeys_wait_bind.mpr ⟨trivial, fun _ => ?_⟩
  refine Async.obeys_wait_bind.mpr ⟨trivial, fun _ => ?_⟩
  refine Async.obeys_call_bind.mpr ⟨trivial, fun v => ?_⟩
  match v with
  | none =>
      refine Async.obeys_call_bind.mpr ⟨trivial, fun _ => ?_⟩
      exact Async.obeys_call_bind.mpr ⟨trivial, fun _ => ⟨_, rfl⟩⟩
  | some c =>
      dsimp only
      rw [Async.get_bind_apply]
      refine Async.obeys_wait_bind.mpr ⟨⟨rfl, _, _, rfl⟩, fun r => ?_⟩
      obtain ⟨buffer, result⟩ := r
      match result with
      | .error e =>
          refine Async.obeys_call_bind.mpr ⟨⟨c, e, rfl⟩, fun _ => ?_⟩
          refine Async.obeys_bind (PingState.stopPingTask_keeps.mono ?_)
          rintro q' s r ⟨rfl, rfl, rfl⟩
          refine Async.obeys_call_bind.mpr ⟨trivial, fun _ => ?_⟩
          exact Async.obeys_call_bind.mpr ⟨trivial, fun _ => rfl⟩
      | .ok response =>
          simp only [withLock, Async.bind_assoc, Async.pure_bind]
          refine Async.obeys_wait_bind.mpr ⟨trivial, fun _ => ?_⟩
          refine Async.obeys_call_bind.mpr ⟨trivial, fun _ => ?_⟩
          refine Async.obeys_call_bind.mpr ⟨trivial, fun _ => ?_⟩
          refine Async.obeys_call_bind.mpr ⟨trivial, fun _ => ?_⟩
          exact Async.obeys_call_bind.mpr ⟨trivial, fun _ => ⟨rfl, response, rfl⟩⟩

end Client

end

namespace ClientRuntime

/-! ### What the other threads do meanwhile -/

/-- What this thread has sent and received on each connection. -/
def World.said (w : World) (g : Agent) (c : Conn) : List (Net Interface.empty).Event :=
  (w.wire c).filterMap fun p => if p.1 = g then some p.2 else none

theorem World.said_addWire {w : World} {g : Agent} {c : Conn} {e : (Net Interface.empty).Event} :
    (w.addWire c (g, e)).said g = Function.update (w.said g) c (w.said g c ++ [e]) := by
  funext c'
  rw [said, addWire_wire]
  by_cases heq : c' = c
  · subst heq
    simp [said]
  · simp [said, heq]

theorem World.said_addWire_other {w : World} {g g' : Agent} {c : Conn}
    {e : (Net Interface.empty).Event} (hne : g' ≠ g) : (w.addWire c (g', e)).said g = w.said g := by
  funext c'
  rw [said, addWire_wire]
  by_cases heq : c' = c
  · subst heq
    simp [said, hne]
  · simp [said, heq]

/-- What the other threads leave as it is, and that only a failed ping empties the cell. -/
structure World.Quiet (w w' : World) (t : Nat) : Prop where
  said : w'.said .client = w.said .client
  record : ∀ c, ∀ y ∈ w.record c, y ∈ w'.record c
  cell : w'.cell = w.cell ∨ (w'.cell = none ∧ ∀ c, w.cell = some c →
    ∃ y ∈ w.record c, y.owner = .ping t ∧ ∃ e, y.fate = .returned (.error e))

theorem World.Quiet.refl {w : World} {t : Nat} : w.Quiet w t := ⟨rfl, fun _ _ hy => hy, .inl rfl⟩

theorem World.mem_addRecord {w : World} {c c' : Conn} {x y : Segment} (hy : y ∈ w.record c') :
    y ∈ (w.addRecord c x).record c' := by
  rw [addRecord_record]
  by_cases heq : c' = c
  · subst heq
    simpa using Or.inl hy
  · simpa [heq] using hy

section

variable {K : ClientKind} {s s' : ClientRuntime} {S : SharedStream} {a : Act}

/-- The actions of ping tasks. -/
def Act.others : Act → Bool
  | .ping _ _ => true
  | .park _ => true
  | .resume _ => true
  | .turn _ => true
  | .drop _ => true
  | _ => false

/-- Only a ping that has failed empties the cell. -/
theorem Thread.Moves.quiet {w w' : World} {t : Nat} {th th' : Thread Unit (Except Error Bool)}
    {q q' : Local} {choice : Choice}
    (hfailed : ∀ c, q.hold = .failed c → w.cell = some c ∧
      ∃ y ∈ w.record c, y.owner = .ping t ∧ ∃ e, y.fate = .returned (.error e))
    (hm : th.Moves (Local.discipline false) K (.ping t) w q choice w' th' q') :
    w.Quiet w' t := by
  have hclient : Agent.ping t ≠ .client := nofun
  have hsame : w'.wire = w.wire → w'.record = w.record → w'.cell = w.cell → w.Quiet w' t := by
    intro hwire hrecord hcell
    refine ⟨?_, fun c y hy => hrecord ▸ hy, .inl hcell⟩
    funext c
    rw [World.said, World.said, hwire]
  cases hm with
  | call hcalls hcall =>
      rename_i s c r k run
      obtain ⟨hwire, hrecord⟩ := World.call_log hcall
      have hcell := World.call_cell hcall
      match c with
      | .setStream none =>
          obtain ⟨c, hc⟩ := hcalls.2 rfl
          obtain ⟨hcell', hy⟩ := hfailed c hc
          refine ⟨?_, fun c y hy => hrecord ▸ hy, .inr ⟨hcell, fun c' hc' => ?_⟩⟩
          · funext c
            rw [World.said, World.said, hwire]
          · rw [hcell'] at hc'
            cases hc'
            exact hy
      | .setStream (some c) => cases hcalls.1
      | .tryLock _ | .unlock _ | .loadStream | .loadShouldStop | .setShouldStop _ | .loadConfig
      | .setConfig _ | .loadTimeoutConfig | .setTimeoutConfig _ | .elapsed | .touch | .takeHandle
      | .setHandle _ | .spawn | .abort _ | .buildConnector => exact hsame hwire hrecord hcell
  | wait hex hwaits hwait =>
      obtain ⟨hwire, hrecord⟩ := World.wait_log hwait
      exact hsame hwire hrecord (World.wait_cell hwait)
  | elapse => exact .refl
  | begins => exact .refl
  | event hanswer => exact ⟨World.said_addWire_other hclient, fun _ _ hy => hy, .inl rfl⟩
  | ends => exact ⟨rfl, fun _ _ hy => World.mem_addRecord hy, .inl rfl⟩

/-- The ping tasks leave the operation of the caller alone. -/
theorem step_others (hR : Refines K s S) (hS : S.Sound) (hfailures : S.Failures)
    (ha : a.others = true) (hs : ClientRuntime.step K s a = some s') :
    (s'.op = s.op ∧ s'.exchanged = s.exchanged ∧ s'.result = s.result ∧ s'.call = s.call) ∧
      ∃ t, s.world.Quiet s'.world t := by
  obtain ⟨loc', -, hmove⟩ := hR.obeyed.step hs
  cases hmove with
  | start | client | finish | cancel => cases ha
  | ping halive hparked hmove =>
      rename_i t choice w' q' th'
      refine ⟨⟨rfl, rfl, rfl, rfl⟩, t, hmove.quiet fun c hc => ?_⟩
      rw [← hR.shows.cell, ← hR.shows.record]
      exact ⟨hS.exclusive.cell_of_failed hc, hfailures _ c hc⟩
  | park => exact ⟨⟨rfl, rfl, rfl, rfl⟩, 0, .refl⟩
  | resume => exact ⟨⟨rfl, rfl, rfl, rfl⟩, 0, .refl⟩
  | again => exact ⟨⟨rfl, rfl, rfl, rfl⟩, 0, .refl⟩
  | ended => exact ⟨⟨rfl, rfl, rfl, rfl⟩, 0, .refl⟩
  | drop =>
      rename_i t halive habort hbegun hwaits
      refine ⟨⟨rfl, rfl, rfl, rfl⟩, t, ?_⟩
      change s.world.Quiet ((s.pings t).thread.drop (.ping t) s.world) t
      rw [Thread.drop]
      split
      · exact ⟨rfl, fun _ _ hy => hy, .inl rfl⟩
      · exact ⟨rfl, fun _ _ hy => World.mem_addRecord hy, .inl rfl⟩

/-! ### One call -/

/-- The connection is in the cell, unless a ping on it has failed. -/
def Keeps (s : ClientRuntime) (c : Conn) : Prop :=
  s.world.cell = some c ∨ (s.world.cell = none ∧
    ∃ t, ∃ y ∈ s.world.record c, y.owner = .ping t ∧ ∃ e, y.fate = .returned (.error e))

/-- On this connection the request was sent, with this result, and nothing else was done
by the caller. -/
def World.Exchanged (K : ClientKind) (command : UInt32) (data : List UInt8)
    (before : Conn → List (Net Interface.empty).Event) (w : World) (c : Conn)
    (r : Except Error (List UInt8)) : Prop :=
  w.record c ≠ [] ∧ ∃ es cha m buffer buffer',
    (K.program (.request command data cha m) buffer).Run es buffer' r ∧
      w.said .client = Function.update before c (before c ++ es)

/-- What a call has done so far. -/
def Told (K : ClientKind) (command : UInt32) (data : List UInt8)
    (before : Conn → List (Net Interface.empty).Event) (s : ClientRuntime) : Stage → Prop
  | .before => s.exchanged = none ∧ s.world.said .client =
      match s.ongoing .client with
      | none => before
      | some x => Function.update before x.conn (before x.conn ++ x.events)
  | .ended c r => s.exchanged = some r ∧ s.world.Exchanged K command data before c r ∧
      ∀ response, r = .ok response → s.Keeps c
  | .cleared c e => s.exchanged = some (.error e) ∧
      s.world.Exchanged K command data before c (.error e) ∧ s.world.cell = none

section

variable {command : UInt32} {data : List UInt8}
  {before : Conn → List (Net Interface.empty).Event} {q q' : Stage}

theorem World.Exchanged.of_quiet {w w' : World} {t : Nat} {c : Conn}
    {r : Except Error (List UInt8)} (h : w.Exchanged K command data before c r)
    (hquiet : w.Quiet w' t) : w'.Exchanged K command data before c r := by
  obtain ⟨hrecord, hrun⟩ := h
  obtain ⟨y, hy⟩ := List.exists_mem_of_ne_nil _ hrecord
  exact ⟨List.ne_nil_of_mem (hquiet.record c y hy), hquiet.said ▸ hrun⟩

theorem Keeps.of_quiet {t : Nat} {c : Conn} (h : s.Keeps c)
    (hquiet : s.world.Quiet s'.world t) : s'.Keeps c := by
  rcases h with hc | ⟨hc, t', y, hy, howner⟩
  · rcases hquiet.cell with hcell | ⟨hcell, hfailed⟩
    · exact .inl (hcell.trans hc)
    · obtain ⟨y, hy, howner⟩ := hfailed c hc
      exact .inr ⟨hcell, t, y, hquiet.record c y hy, howner⟩
  · refine .inr ⟨?_, t', y, hquiet.record c y hy, howner⟩
    rcases hquiet.cell with hcell | ⟨hcell, -⟩
    · exact hcell.trans hc
    · exact hcell

/-- Nothing is done that concerns the call. -/
theorem Told.of_quiet {t : Nat} (h : s.Told K command data before q)
    (hquiet : s.world.Quiet s'.world t) (hexchanged : s'.exchanged = s.exchanged)
    (hongoing : s'.ongoing .client = s.ongoing .client) : s'.Told K command data before q := by
  cases q with
  | before => exact ⟨hexchanged.trans h.1, by rw [hquiet.said, hongoing]; exact h.2⟩
  | ended c r =>
      exact ⟨hexchanged.trans h.1, h.2.1.of_quiet hquiet,
        fun response hr => (h.2.2 response hr).of_quiet hquiet⟩
  | cleared c e =>
      refine ⟨hexchanged.trans h.1, h.2.1.of_quiet hquiet, ?_⟩
      rcases hquiet.cell with hcell | ⟨hcell, -⟩
      · exact hcell.trans h.2.2
      · exact hcell

/-- The operation of the caller takes a step. -/
theorem Told.client {th th' : Thread ClientFields (Except Error (List UInt8))} {w' : World}
    {choice : Choice} (h : s.Told K command data before q) (hop : s.op = some th)
    (hbegun : th.Begun K)
    (hobeys : ∃ final, th.task.Obeys (Stage.discipline command data) final q)
    (hcell : ∀ x, s.ongoing .client = some x → s.world.cell = some x.conn)
    (hm : th.Moves (Stage.discipline command data) K .client s.world q choice w' th' q') :
    Told K command data before
      { s with world := w', op := some th', exchanged := th.outcome.or s.exchanged } q' := by
  have hongoing : s.ongoing .client = th.ongoing := by rw [ongoing, hop]; rfl
  rw [hongoing] at hcell
  cases hm with
  | call hcalls hcall =>
      rename_i s₀ c r k run
      obtain rfl := hbegun.running_eq_none (by simp)
      obtain ⟨hwire, hrecord⟩ := World.call_log hcall
      have hcell' := World.call_cell hcall
      have hsaid : w'.said .client = s.world.said .client := by
        funext c
        rw [World.said, World.said, hwire]
      have hquiet : w'.cell = s.world.cell → s.world.Quiet w' 0 := fun hcell =>
        ⟨hsaid, fun c y hy => hrecord ▸ hy, .inl hcell⟩
      cases c with
      | setStream v =>
          cases v with
          | none =>
              obtain ⟨c, e, rfl⟩ := hcalls
              exact ⟨h.1, ⟨hrecord ▸ h.2.1.1, hsaid ▸ h.2.1.2⟩, hcell'⟩
          | some c =>
              obtain rfl := hcalls
              exact ⟨h.1, hsaid.trans (by rw [h.2, hongoing]; rfl)⟩
      | _ => exact h.of_quiet (hquiet hcell') rfl hongoing.symm
  | wait hex hwaits hwait =>
      rename_i s₀ ts a r k run
      obtain rfl := hbegun.running_eq_none (by rintro ts c x buffer ⟨⟩; cases hex)
      obtain ⟨hwire, hrecord⟩ := World.wait_log hwait
      have hquiet : s.world.Quiet w' 0 := by
        refine ⟨?_, fun c y hy => hrecord ▸ hy, .inl (World.wait_cell hwait)⟩
        funext c
        rw [World.said, World.said, hwire]
      have hq : (Stage.discipline command data).waited q a r = q := by
        cases a <;> first | rfl | cases hex
      rw [hq]
      exact h.of_quiet hquiet rfl hongoing.symm
  | elapse hex =>
      obtain rfl := hbegun.running_eq_none (by rintro ts c x buffer ⟨⟩; cases hex)
      exact h.of_quiet (t := 0) .refl rfl hongoing.symm
  | begins hwaits =>
      rename_i s₀ ts c x buffer k
      obtain ⟨rfl, -⟩ := hwaits
      refine ⟨h.1, ?_⟩
      change s.world.said .client = Function.update before c (before c ++ [])
      rw [h.2, hongoing, List.append_nil, Function.update_eq_self]
      rfl
  | event hanswer =>
      rename_i task x s₀ o r k
      obtain ⟨s₁, ts, buffer, k', htask, hpartial⟩ := hbegun _ rfl
      dsimp only at htask
      subst htask
      obtain ⟨final, ⟨rfl, -⟩, -⟩ := hobeys
      refine ⟨h.1, ?_⟩
      change (s.world.addWire x.conn (.client, ⟨o, r⟩)).said .client =
        Function.update before x.conn (before x.conn ++ (x.add ⟨o, r⟩).events)
      rw [World.said_addWire, h.2, hongoing]
      change Function.update (Function.update before x.conn (before x.conn ++ x.events)) x.conn
        (Function.update before x.conn (before x.conn ++ x.events) x.conn ++ [⟨o, r⟩]) = _
      rw [Function.update_idem, Function.update_self, List.append_assoc]
      rfl
  | ends =>
      rename_i s₀ ts c x buffer buffer' y k r
      obtain ⟨s₁, ts', buffer'', k', htask, hpartial⟩ := hbegun _ rfl
      dsimp only at htask
      cases htask
      obtain ⟨final, ⟨rfl, cha, m, hx⟩, -⟩ := hobeys
      have hrun := hpartial.run .done
      rw [List.append_nil, hx] at hrun
      refine ⟨rfl, ⟨?_, y.events, cha, m, buffer, buffer', hrun, ?_⟩, fun response hr => .inl ?_⟩
      · simp [addRecord_record]
      · exact h.2.trans (by rw [hongoing]; rfl)
      · exact hcell y rfl

/-- How far the call has come, and what it has done so far. -/
structure During (K : ClientKind) (command : UInt32) (data : List UInt8)
    (before : Conn → List (Net Interface.empty).Event) (s : ClientRuntime) (q : Stage) : Prop where
  told : s.Told K command data before q
  obeys : ∀ th, s.op = some th → th.Begun K ∧
    th.task.Obeys (Stage.discipline command data) (fun q _ r => q.Returns r) q
  returned : s.op = none → ∃ r, s.result = some r ∧ q.Returns r

/-- The call is not dropped, and the caller makes no other. -/
def Act.awaits : Act → Bool
  | .start _ => false
  | .cancel => false
  | _ => true

theorem During.step (h : During K command data before s q) (hR : Refines K s S) (hS : S.Sound)
    (hfailures : S.Failures) (ha : a.awaits = true) (hs : ClientRuntime.step K s a = some s') :
    ∃ q', During K command data before s' q' := by
  have hothers : a.others = true → ∃ q', During K command data before s' q' := by
    intro ha
    obtain ⟨⟨hop, hexchanged, hresult, -⟩, t, hquiet⟩ := step_others hR hS hfailures ha hs
    have hongoing : s'.ongoing .client = s.ongoing .client := by rw [ongoing, ongoing, hop]
    refine ⟨q, h.told.of_quiet hquiet hexchanged hongoing, ?_, ?_⟩
    · rw [hop]
      exact h.obeys
    · rw [hop, hresult]
      exact h.returned
  cases a with
  | start op => cases ha
  | cancel => cases ha
  | client choice =>
      simp only [ClientRuntime.step] at hs
      split at hs
      · rename_i th hop
        simp only [Option.map_eq_some_iff, Prod.exists] at hs
        obtain ⟨w', th', hstep, rfl⟩ := hs
        obtain ⟨hbegun, hobeys⟩ := h.obeys th hop
        obtain ⟨q', hobeys', hmove⟩ := Thread.Moves.of_step hobeys hstep
        refine ⟨q', h.told.client hop hbegun ⟨_, hobeys⟩ (fun x hx => ?_) hmove, ?_, by simp⟩
        · rw [← hR.shows.cell]
          rw [← hR.running] at hx
          exact hS.exclusive.cell_of_running hx
        · rintro th ⟨⟩
          exact ⟨hbegun.move hmove, hobeys'⟩
      · cases hs
  | finish =>
      simp only [ClientRuntime.step] at hs
      split at hs
      · rename_i fields r running hop
        cases hs
        obtain ⟨hbegun, hobeys⟩ := h.obeys _ hop
        obtain rfl := hbegun.running_eq_none_of_done
        have hongoing : s.ongoing .client = none := by rw [ongoing, hop]; rfl
        exact ⟨q, h.told.of_quiet (t := 0) .refl rfl hongoing.symm, by simp,
          fun _ => ⟨r, rfl, hobeys⟩⟩
      · cases hs
  | ping t choice => exact hothers rfl
  | park t => exact hothers rfl
  | resume t => exact hothers rfl
  | turn t => exact hothers rfl
  | drop t => exact hothers rfl

end

/-- A connection that is gone is not read or written by any run. -/
theorem Refines.wire_of_gone {c : Conn} {as : List Act} (hR : Refines K s S) (hS : S.Sound)
    (hgone : S.Gone c) (hrun : (machine K).run s as = some s') :
    s'.world.wire c = s.world.wire c := by
  induction as generalizing s S with
  | nil =>
      cases hrun
      rfl
  | cons a as ih =>
      rw [Machine.run_cons, Option.bind_eq_some_iff] at hrun
      obtain ⟨t, ht, hrun⟩ := hrun
      rcases hR.step ht with hR' | ⟨l, hl, -, hR'⟩
      · rw [ih hR' hS hgone hrun, ← hR.shows.wire, ← hR'.shows.wire]
      · obtain ⟨hgone', hwire⟩ := hgone.apply hS hl
        rw [ih hR' (hS.apply hl) hgone' hrun, ← hR'.shows.wire, hwire, hR.shows.wire]

theorem shared_of_reachable (h : (machine K).Reachable Machine.anyStep s) :
    ∃ S, Refines K s S ∧ S.Sound ∧ S.Failures := by
  obtain ⟨S, hS, hR⟩ := refines_of_reachable (fun _ _ => True) (fun _ _ _ _ _ _ _ => trivial) h
  exact ⟨S, hR, SharedStream.sound_of_reachable hS, SharedStream.failures_of_reachable hS⟩

section

variable {command : UInt32} {data : List UInt8}
  {before : Conn → List (Net Interface.empty).Event} {q : Stage}

theorem During.run {acts : List Act} (h : During K command data before s q)
    (hreach : (machine K).Reachable Machine.anyStep s)
    (hawaits : ∀ a ∈ acts, a.awaits = true) (hrun : (machine K).run s acts = some s') :
    ∃ q', During K command data before s' q' := by
  induction acts generalizing s q with
  | nil =>
      cases hrun
      exact ⟨q, h⟩
  | cons a acts ih =>
      rw [Machine.run_cons, Option.bind_eq_some_iff] at hrun
      obtain ⟨t, ht, hrun⟩ := hrun
      obtain ⟨S, hR, hS, hfailures⟩ := shared_of_reachable hreach
      obtain ⟨q', h'⟩ := h.step hR hS hfailures (hawaits a List.mem_cons_self) ht
      exact ih h' (hreach.step trivial ht) (fun b hb => hawaits b (List.mem_cons_of_mem _ hb)) hrun

theorem During.start {s₁ : ClientRuntime}
    (hs : ClientRuntime.step K s (.start (.handleMessage command data)) = some s₁) :
    During K command data (s.world.said .client) s₁ .before := by
  simp only [ClientRuntime.step] at hs
  split at hs
  · cases hs
    refine ⟨⟨rfl, rfl⟩, ?_, by simp⟩
    rintro th ⟨⟩
    exact ⟨.of_none, Client.handleMessage_once⟩
  · cases hs

/-- What the exchange of a call has done, as far as it has come. -/
theorem During.sent (h : During K command data before s q) :
    ∃ c es, s.world.said .client = Function.update before c (before c ++ es) ∧
      (∃ rest, ClientExchange.opening command data ++ data ++ [1] = Library.sent es ++ rest) ∧
      (8 < (Library.sent es).length → ∃ rest, received es = 1 :: rest) ∧
      (q = .before → s.ongoing .client = none → es = []) ∧
      (∀ c' r, q = .ended c' r → c' = c) ∧ ∀ c' e, q = .cleared c' e → c' = c := by
  have hnothing : ∃ rest, ClientExchange.opening command data ++ data ++ [1] = [] ++ rest :=
    ⟨_, rfl⟩
  match q, h.told, h.obeys with
  | .before, ⟨_, hsaid⟩, hobeys =>
      cases hx : s.ongoing .client with
      | none =>
          rw [hx] at hsaid
          refine ⟨0, [], ?_, hnothing, by simp, fun _ _ => rfl, nofun, nofun⟩
          rw [hsaid, List.append_nil, Function.update_eq_self]
      | some x =>
          rw [hx] at hsaid
          obtain ⟨th, hop, hth⟩ := Option.bind_eq_some_iff.mp (show s.op.bind _ = some x from hx)
          obtain ⟨run, hrunning, rfl⟩ := Option.map_eq_some_iff.mp hth
          obtain ⟨hbegun, hobeys⟩ := hobeys th hop
          obtain ⟨s₁, ts, buffer, k, htask, hpartial⟩ := hbegun run hrunning
          rw [htask] at hobeys
          obtain ⟨⟨-, cha, m, hexchange⟩, -⟩ := hobeys
          rw [hexchange] at hpartial
          obtain ⟨hopened, hack⟩ := ClientKind.request_partial hpartial
          exact ⟨run.conn, run.events, hsaid, hopened, hack, fun _ => nofun, nofun, nofun⟩
  | .ended c r, ⟨_, ⟨_, es, cha, m, buffer, buffer', hrun, hsaid⟩, _⟩, _ =>
      obtain ⟨hopened, hack, -⟩ := ClientKind.request_run hrun
      exact ⟨c, es, hsaid, hopened, hack, nofun, fun _ _ hq => by cases hq; rfl, nofun⟩
  | .cleared c e, ⟨_, ⟨_, es, cha, m, buffer, buffer', hrun, hsaid⟩, _⟩, _ =>
      obtain ⟨hopened, hack, -⟩ := ClientKind.request_run hrun
      exact ⟨c, es, hsaid, hopened, hack, nofun, nofun, fun _ _ hq => by cases hq; rfl⟩

end

/-- A call sends its request at most once, on one connection, and nothing of its payload
before the request was accepted. When it returns, there was no exchange; or there was
one that has failed, then the cell is empty and the connection is not used any more; or
there was one that has succeeded, and the connection is still in the cell, unless a ping
on it has failed since. -/
theorem handle_message_once {s₀ s : ClientRuntime} {command : UInt32} {data : List UInt8}
    {acts : List Act} (h : (machine K).Reachable Machine.anyStep s₀)
    (hawaits : ∀ a ∈ acts, a.awaits = true)
    (hrun : (machine K).run s₀ (.start (.handleMessage command data) :: acts) = some s) :
    ∃ c es, s.world.said .client =
        Function.update (s₀.world.said .client) c (s₀.world.said .client c ++ es) ∧
      (∃ rest, ClientExchange.opening command data ++ data ++ [1] = sent es ++ rest) ∧
      (8 < (sent es).length → ∃ rest, received es = 1 :: rest) ∧
      (s.op = none →
        (s.exchanged = none ∧ es = [] ∧ ∃ e, s.result = some (.error e)) ∨
        (∃ e, s.exchanged = some (.error e) ∧ s.result = some (.error e) ∧ s.world.cell = none ∧
          ∀ acts' s', (machine K).run s acts' = some s' → s'.world.wire c = s.world.wire c) ∨
        ∃ response, s.exchanged = some (.ok response) ∧ s.result = some (.ok response) ∧
          s.Keeps c) := by
  rw [Machine.run_cons, Option.bind_eq_some_iff] at hrun
  obtain ⟨s₁, hs₁, hrun⟩ := hrun
  have hreach₁ : (machine K).Reachable Machine.anyStep s₁ := h.step trivial hs₁
  have hreach := hreach₁.run (fun _ _ _ => trivial) hrun
  obtain ⟨q, hq⟩ := (During.start hs₁).run hreach₁ hawaits hrun
  obtain ⟨c, es, hsaid, hopened, hack, hnone, hended, hcleared⟩ := hq.sent
  refine ⟨c, es, hsaid, hopened, hack, fun hop => ?_⟩
  obtain ⟨r, hresult, hreturns⟩ := hq.returned hop
  have htold := hq.told
  cases q with
  | before =>
      obtain ⟨e, he⟩ := hreturns
      obtain ⟨hexchanged, -⟩ := htold
      refine .inl ⟨hexchanged, hnone rfl ?_, e, he ▸ hresult⟩
      rw [ongoing, hop]
      rfl
  | ended c' r' =>
      obtain ⟨heq, response, hr⟩ := hreturns
      obtain ⟨hexchanged, -, hkeeps⟩ := htold
      obtain rfl := hended c' r' rfl
      subst heq hr
      exact .inr (.inr ⟨response, hexchanged, hresult, hkeeps response rfl⟩)
  | cleared c' e =>
      obtain ⟨hexchanged, ⟨hrecord, -⟩, hcell⟩ := htold
      obtain rfl := hcleared c' e rfl
      cases hreturns
      refine .inr (.inl ⟨e, hexchanged, hresult, hcell, fun acts' s' hrun' => ?_⟩)
      obtain ⟨S, hR, hS, -⟩ := shared_of_reachable hreach
      have hempty : S.cell = none := hR.shows.cell.trans hcell
      refine hR.wire_of_gone hS ⟨hS.numbered.record c' ?_, ?_, fun g x hx => ?_⟩ hrun'
      · rwa [hR.shows.record]
      · rw [hempty]
        simp
      · have hrunning := hS.exclusive.cell_of_running hx
        rw [hempty] at hrunning
        cases hrunning

/-- The server closes the connection after it has received a request header. -/
def closedAfterHeader : List Act :=
  clientGoes 7 ++ [.client (.written 8), .client .go, .client (.bytes [])] ++ clientGoes 11 ++
    [.finish]

theorem handle_message_once_closedAfterHeader :
    ∃ s₀ s, (machine .tl).run new connecting = some s₀ ∧
      (machine .tl).run s₀ (.start (.handleMessage 7 []) :: closedAfterHeader) = some s ∧
      s.world.cell = none ∧
      ∃ c, ∀ acts' s', (machine .tl).run s acts' = some s' → s'.world.wire c = s.world.wire c := by
  obtain ⟨s, hs, hproj⟩ := Option.map_eq_some_iff.mp
    (show ((machine .tl).run new
        (connecting ++ .start (.handleMessage 7 []) :: closedAfterHeader)).map
      (fun s => (s.op.isNone, s.exchanged.map Except.isOk)) = some (true, some false)
      by decide +kernel)
  simp only [Prod.mk.injEq, Option.isNone_iff_eq_none] at hproj
  obtain ⟨hop, hexchanged⟩ := hproj
  rw [Machine.run_append, Option.bind_eq_some_iff] at hs
  obtain ⟨s₀, hs₀, hs⟩ := hs
  have hreach : (machine .tl).Reachable Machine.anyStep s₀ :=
    Machine.Reachable.run (.init fresh_new) (fun _ _ _ => trivial) hs₀
  obtain ⟨c, es, -, -, -, hend⟩ := handle_message_once hreach (by decide) hs
  refine ⟨s₀, s, hs₀, hs, ?_⟩
  rcases hend hop with ⟨hnone, -⟩ | ⟨e, -, -, hcell, hgone⟩ | ⟨response, hok, -⟩
  · rw [hnone] at hexchanged
    cases hexchanged
  · exact ⟨hcell, c, hgone⟩
  · rw [hok] at hexchanged
    cases hexchanged

/-- The exchange succeeds and the guards are dropped; before the call returns, a ping that
is due is begun on the stream, and fails. -/
def pingBeforeReturn : List Act :=
  clientGoes 7 ++ [.client (.written 8), .client .go, .client (.bytes [1]), .client .go,
    .client (.bytes [1, 0, 0, 0, 0]), .client (.written 1), .client .go] ++ clientGoes 6 ++
    pinging ++ pingGoes 4 ++ [.ping 0 (.fail .writeZero)] ++ pingGoes 2

/-- The call returns a response, and the stream is not stored any more. -/
theorem failed_ping_takes_stream :
    ¬∀ (K : ClientKind) (s₀ s : ClientRuntime) (command : UInt32) (data : List UInt8)
      (acts : List Act), (machine K).Reachable Machine.anyStep s₀ →
        (∀ a ∈ acts, a.awaits = true) →
          (machine K).run s₀ (.start (.handleMessage command data) :: (acts ++ [.finish])) =
            some s →
            ∀ response, s.result = some (.ok response) → s.world.cell ≠ none := by
  intro h
  obtain ⟨s, hs, hproj⟩ := Option.map_eq_some_iff.mp
    (show ((machine .tl).run new
        (connecting ++ .start (.handleMessage 7 []) :: (pingBeforeReturn ++ [.finish]))).map
      (fun s => (s.result.map Except.toOption, s.world.cell)) = some (some (some []), none)
      by decide +kernel)
  simp only [Prod.mk.injEq] at hproj
  obtain ⟨hresult, hcell⟩ := hproj
  rw [Machine.run_append, Option.bind_eq_some_iff] at hs
  obtain ⟨s₀, hs₀, hs⟩ := hs
  have hreach : (machine .tl).Reachable Machine.anyStep s₀ :=
    Machine.Reachable.run (.init fresh_new) (fun _ _ _ => trivial) hs₀
  obtain ⟨r, hr, hok⟩ := Option.map_eq_some_iff.mp hresult
  cases r with
  | error e => cases hok
  | ok response => exact h .tl s₀ s 7 [] pingBeforeReturn hreach (by decide) hs response hr hcell

end

end ClientRuntime

end Wagonet
