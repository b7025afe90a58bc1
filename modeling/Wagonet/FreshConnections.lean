import Wagonet.ClientUses
import Wagonet.OneExchange
import Wagonet.PingControl

/-!
What a call of `connect` achieves.

It succeeds if one of its attempts has made a connection and stored the stream. When
all attempts have failed it looks into the cell once more, and a stream that is left
there from an earlier call makes a success of the failure. A call of `handle_message`
without keep-alive then sends its request over the old stream. Where nothing is left
in the cell, both keep to connections of their own.
-/

namespace Wagonet

open Library ClientRuntime

/-- How far the attempts of a call have come. -/
inductive Attempts
  /-- no connection was made yet -/
  | trying
  | opened (c : Conn)
  /-- the stream of the connection is in the cell -/
  | stored (c : Conn)
  /-- all attempts have failed, and this was found in the cell -/
  | gaveUp (v : Option Conn)
  /-- this is taken for the exchange, after an attempt has succeeded or after none has -/
  | took (fresh : Bool) (v : Option Conn)

namespace Attempts

/-- What `connect` returns. -/
def Returns {α : Type} (r : Except Error α) : Attempts → Prop
  | .trying => ∃ e, r = .error e
  | .opened _ => ∃ e, r = .error e
  | .stored _ => True
  | .gaveUp none => ∃ e, r = .error e
  | .gaveUp (some _) => ∃ a, r = .ok a
  | .took _ _ => False

theorem Returns.congr {α β : Type} {q : Attempts} {r : Except Error α} {r' : Except Error β}
    (h : q.Returns r) (hok : (∃ a, r = .ok a) → ∃ b, r' = .ok b)
    (herror : (∃ e, r = .error e) → ∃ e, r' = .error e) : q.Returns r' := by
  rcases q with _ | c | c | (_ | c) | ⟨fresh, v⟩
  · exact herror h
  · exact herror h
  · trivial
  · exact herror h
  · exact hok h
  · exact h.elim

/-- The call goes on with a stream that it has not made. -/
def Old : Attempts → Prop
  | .gaveUp (some _) => True
  | .took false _ => True
  | _ => False

/-- After a look into the cell. -/
def loaded : Attempts → Option Conn → Attempts
  | .trying, v => .gaveUp v
  | .stored _, v => .took true v
  | .gaveUp _, v => .took false v
  | q, _ => q

/-- The rules for `connect`, and for `handle_message` without keep-alive. -/
def discipline : Discipline ClientAwaits ClientCalls Attempts ClientFields where
  waits q _ a :=
    match a with
    | .tcpConnect => q = .trying
    | .exchange c _ _ => ∃ fresh, q = .took fresh (some c)
    | _ => True
  waited q a r :=
    match a, r with
    | .tcpConnect, .ok c => .opened c
    | _, _ => q
  calls q c :=
    match c with
    | .loadStream => q = .trying ∨ (∃ c, q = .stored c) ∨ ∃ c, q = .gaveUp (some c)
    | .setStream (some c) => q = .opened c
    | .setStream none => ∃ fresh v, q = .took fresh v
    | _ => True
  called q c r :=
    match c, r with
    | .loadStream, v => q.loaded v
    | .setStream (some c), _ => .stored c
    | _, _ => q
  timed q _ := ∀ e, q.Returns (.error e : Except Error Unit)
  lapsed q := q

/-! ### The programs -/

section

variable {K : ClientKind} {α : Type} {q : Attempts} {s : ClientFields} {c : Conn}

theorem quiet_of_controls (q : Attempts) (c : ClientCall) (hc : c.controls = true) :
    discipline.calls q c ∧ ∀ r, discipline.called q c r = q := by
  cases c <;> first | exact ⟨trivial, fun _ => rfl⟩ | cases hc

/-- Locks and the control of the ping task have nothing to do with the attempts. -/
theorem controls_keeps {m : Async ClientIO ClientFields Error α} (hm : Controls m)
    (htimed : discipline.timed q s) :
    (m s).Obeys discipline.interruptible (fun q' _ _ => q' = q) q :=
  hm.obeys (fun _ _ => ⟨⟨trivial, htimed⟩, fun _ => rfl⟩) (fun _ => ⟨htimed, rfl⟩)
    (quiet_of_controls q)

theorem timed_trying : discipline.timed .trying s := fun e => ⟨e, rfl⟩

theorem timed_opened : discipline.timed (.opened c) s := fun e => ⟨e, rfl⟩

theorem timed_stored : discipline.timed (.stored c) s := fun _ => trivial

theorem useStream_stores :
    (Client.useStream c s).Obeys discipline.interruptible (fun q _ r => q.Returns r)
      (.opened c) := by
  have hrest : Controls (do
      PingState.stopPingTask
      let self ← Async.get
      if self.keepAlive then
        if ← PingState.isEnabled then
          PingState.startPingTask : Async ClientIO ClientFields Error Unit) := by
    refine PingState.commands_stopPingTask.controls.bind fun _ => Async.uses_get.bind fun self => ?_
    split
    · refine PingState.controls_isEnabled.bind fun enabled => ?_
      split
      · exact PingState.controls_startPingTask
      · exact Async.uses_pure _
    · exact Async.uses_pure _
  simp only [Client.useStream, withLock, Async.bind_assoc, Async.pure_bind]
  refine Async.obeys_wait_bind.mpr ⟨⟨trivial, timed_opened⟩, fun _ => ?_⟩
  refine Async.obeys_call_bind.mpr ⟨rfl, fun _ => ?_⟩
  refine Async.obeys_call_bind.mpr ⟨trivial, fun _ => ?_⟩
  refine (controls_keeps (q := .stored c) hrest timed_stored).mono fun q s r hq => ?_
  rw [hq]
  trivial

theorem wrapStream_opened :
    (K.wrapStream c s).Obeys discipline.interruptible (fun q _ _ => q = .opened c)
      (.opened c) := by
  cases K with
  | tl => rfl
  | tls domain acceptInvalidCerts =>
      refine Async.obeys_wait_bind.mpr ⟨⟨trivial, timed_opened⟩, fun r => ?_⟩
      cases r with
      | ok u => rfl
      | error e => rfl

theorem connectLoop_returns {tries : Nat} :
    (Client.connectLoop K tries s).Obeys discipline.interruptible (fun q _ r => q.Returns r)
      .trying := by
  induction tries generalizing s with
  | zero =>
      simp only [Client.connectLoop, withLock, Async.bind_assoc, Async.pure_bind]
      refine Async.obeys_wait_bind.mpr ⟨⟨trivial, timed_trying⟩, fun _ => ?_⟩
      refine Async.obeys_call_bind.mpr ⟨.inl rfl, fun v => ?_⟩
      refine Async.obeys_call_bind.mpr ⟨trivial, fun _ => ?_⟩
      cases v with
      | none => exact ⟨_, rfl⟩
      | some c => exact ⟨_, rfl⟩
  | succ tries ih =>
      have again : ∀ s, ((Async.wait (A := ClientAwaits) (.sleep Client.connectRetryDelay) >>=
          fun _ => Client.connectLoop K tries) s).Obeys discipline.interruptible
          (fun q _ r => q.Returns r) .trying :=
        fun s => Async.obeys_wait_bind.mpr ⟨⟨trivial, timed_trying⟩, fun _ => ih⟩
      refine Async.obeys_timeout_wait_bind ⟨rfl, timed_trying (s := s)⟩ (timed_trying (s := s))
        (again s) fun r => ?_
      cases r with
      | error e => exact again s
      | ok c =>
          refine Async.obeys_bind (wrapStream_opened.mono fun q s r hq => ?_)
          subst hq
          cases r with
          | error e => exact ⟨e, rfl⟩
          | ok u => exact useStream_stores

theorem connect_returns :
    (Client.connect K s).Obeys discipline (fun q _ r => q.Returns r) .trying := by
  have hinner : ∀ s, ((do K.buildConnector; Client.connectLoop K defaultMaxConnectRetries) s).Obeys
      discipline.interruptible (fun q _ r => q.Returns r) .trying := by
    intro s
    refine Async.obeys_bind ((Client.commands_buildConnector.obeys (D := discipline.interruptible)
      (quiet_of_controls _)).mono fun q s r hq => ?_)
    subst hq
    cases r with
    | error e => exact ⟨e, rfl⟩
    | ok u => exact connectLoop_returns
  refine Async.obeys_bind ((Client.commands_checkDomain.obeys (quiet_of_controls _)).mono
    fun q s r hq => ?_)
  subst hq
  cases r with
  | error e => exact ⟨e, rfl⟩
  | ok u =>
      refine Async.obeys_within (hinner s) (fun q s r hq => ?_) fun q s hq => hq _
      cases r with
      | ok u => exact hq
      | error e => exact hq

theorem program_connect {fields : ClientFields} :
    (ClientOp.connect.program K fields).Obeys discipline (fun q _ r => q.Returns r) .trying := by
  refine Async.obeys_bind (connect_returns.mono fun q s r hq => ?_)
  cases r with
  | ok u => exact hq.congr (fun _ => ⟨_, rfl⟩) (by rintro ⟨e, ⟨⟩⟩)
  | error e => exact hq.congr (by rintro ⟨u, ⟨⟩⟩) fun _ => ⟨e, rfl⟩

/-- Without keep-alive a call connects first, and takes what is in the cell then. -/
theorem handleMessage_obeys {command : UInt32} {data : List UInt8} (hs : s.keepAlive = false) :
    (Client.handleMessage K command data s).Obeys discipline (fun _ _ _ => True) .trying := by
  have hconnect : (Client.ensureConnected K s).Obeys discipline (fun q _ r => q.Returns r)
      .trying := by
    rw [Client.ensureConnected, Async.get_bind_apply, if_neg (by simp [hs])]
    exact connect_returns
  refine Async.obeys_bind (hconnect.mono fun q s r hq => ?_)
  cases r with
  | error e => trivial
  | ok u =>
      have hload : discipline.calls q .loadStream ∧ ∃ fresh, ∀ v, q.loaded v = .took fresh v := by
        rcases q with _ | c | c | (_ | c) | ⟨fresh, v⟩
        · obtain ⟨e, he⟩ := hq
          cases he
        · obtain ⟨e, he⟩ := hq
          cases he
        · exact ⟨.inr (.inl ⟨c, rfl⟩), true, fun _ => rfl⟩
        · obtain ⟨e, he⟩ := hq
          cases he
        · exact ⟨.inr (.inr ⟨c, rfl⟩), false, fun _ => rfl⟩
        · exact hq.elim
      obtain ⟨hcalls, fresh, htook⟩ := hload
      refine Async.obeys_wait_bind.mpr ⟨trivial, fun _ => ?_⟩
      refine Async.obeys_wait_bind.mpr ⟨trivial, fun _ => ?_⟩
      refine Async.obeys_call_bind.mpr ⟨hcalls, fun v => ?_⟩
      change Task.Obeys discipline _ _ (q.loaded v)
      rw [htook v]
      cases v with
      | none =>
          refine Async.obeys_call_bind.mpr ⟨trivial, fun _ => ?_⟩
          exact Async.obeys_call_bind.mpr ⟨trivial, fun _ => trivial⟩
      | some c =>
          dsimp only
          rw [Async.get_bind_apply]
          refine Async.obeys_wait_bind.mpr ⟨⟨fresh, rfl⟩, fun r => ?_⟩
          obtain ⟨buffer, result⟩ := r
          cases result with
          | error e =>
              refine Async.obeys_call_bind.mpr ⟨⟨fresh, some c, rfl⟩, fun _ => ?_⟩
              refine Async.obeys_bind ((PingState.commands_stopPingTask.obeys (D := discipline)
                (quiet_of_controls _)).mono fun q s r _ => ?_)
              cases r with
              | error e => trivial
              | ok u =>
                  refine Async.obeys_call_bind.mpr ⟨trivial, fun _ => ?_⟩
                  exact Async.obeys_call_bind.mpr ⟨trivial, fun _ => trivial⟩
          | ok response =>
              simp only [withLock, Async.bind_assoc, Async.pure_bind]
              refine Async.obeys_wait_bind.mpr ⟨trivial, fun _ => ?_⟩
              refine Async.obeys_call_bind.mpr ⟨trivial, fun _ => ?_⟩
              refine Async.obeys_call_bind.mpr ⟨trivial, fun _ => ?_⟩
              refine Async.obeys_call_bind.mpr ⟨trivial, fun _ => ?_⟩
              exact Async.obeys_call_bind.mpr ⟨trivial, fun _ => trivial⟩

end

end Attempts

namespace ClientRuntime

/-! ### The connections that are made -/

theorem World.call_connections {w w' : World} {g : Agent} {c : ClientCall} {r : c.Reply}
    {choice : Choice} (h : w.call g c choice = some (r, w')) : w'.connections = w.connections := by
  rw [World.call_frame (f := World.connections) (fun _ _ => rfl) (fun _ _ => rfl) h]
  cases c with
  | setStream v => cases v <;> rfl
  | _ => rfl

theorem World.wait_connections {w w' : World} {g : Agent} {a : ClientAwait} {r : a.Reply}
    {choice : Choice} (ha : a ≠ .tcpConnect) (h : w.wait g a choice = some (r, w')) :
    w'.connections = w.connections := by
  cases a with
  | tcpConnect => exact absurd rfl ha
  | lock m =>
      cases choice <;> simp only [World.wait, reduceCtorEq] at h
      split at h <;> cases h
      rfl
  | _ => cases choice <;> simp only [World.wait, reduceCtorEq] at h <;> cases h <;> rfl

/-- A ping task makes no connection, and stores none. -/
theorem Thread.Moves.makes_none {K : ClientKind} {w w' : World} {t : Nat}
    {th th' : Thread Unit (Except Error Bool)} {q q' : Local} {choice : Choice}
    (hm : th.Moves (Local.discipline false) K (.ping t) w q choice w' th' q') :
    w'.connections = w.connections ∧ w'.stored = w.stored := by
  cases hm with
  | call hcalls hcall =>
      rename_i c r k run
      refine ⟨World.call_connections hcall, ?_⟩
      have hstored := (World.sameTasks_of_call hcall).stored
      cases c with
      | setStream v =>
          cases v with
          | none => exact hstored
          | some c => cases hcalls.1
      | _ => exact hstored
  | wait _ hwaits hwait =>
      refine ⟨World.wait_connections ?_ hwait, (World.sameTasks_of_wait hwait).stored⟩
      rintro rfl
      cases hwaits.1
  | elapse => exact ⟨rfl, rfl⟩
  | begins => exact ⟨rfl, rfl⟩
  | event => exact ⟨rfl, rfl⟩
  | ends => exact ⟨rfl, rfl⟩

section

variable {K : ClientKind} {s s' s₀ : ClientRuntime} {S : SharedStream} {a : Act}

theorem step_others_stored (hR : Refines K s S) (ha : a.others = true)
    (hs : ClientRuntime.step K s a = some s') :
    s'.world.connections = s.world.connections ∧ s'.world.stored = s.world.stored := by
  obtain ⟨loc', -, hmove⟩ := hR.obeyed.step hs
  cases hmove with
  | start | client | finish | cancel => cases ha
  | ping _ _ hmove => exact hmove.makes_none
  | park => exact ⟨rfl, rfl⟩
  | resume => exact ⟨rfl, rfl⟩
  | again => exact ⟨rfl, rfl⟩
  | ended => exact ⟨rfl, rfl⟩
  | drop =>
      rename_i t halive habort hbegun hwaits
      change ((s.pings t).thread.drop (.ping t) s.world).connections = _ ∧
        ((s.pings t).thread.drop (.ping t) s.world).stored = _
      rw [Thread.drop]
      split <;> exact ⟨rfl, rfl⟩

/-! ### One call -/

/-- The thread is about to look into the cell. -/
def Thread.looks {σ α : Type} (th : Thread σ α) : Bool :=
  match th.task with
  | .await _ (.call .loadStream) _ => true
  | _ => false

/-- Where the caller looks for a stream without having made a connection since `s₀`, no
stream is left. -/
def NothingLeft (s₀ s : ClientRuntime) : Act → Prop
  | .client _ => s.op.any (·.looks) = true → s.world.connections = s₀.world.connections →
      s.world.cell = none
  | _ => True

instance (s₀ s : ClientRuntime) (a : Act) : Decidable (NothingLeft s₀ s a) :=
  match a with
  | .client _ => inferInstanceAs (Decidable (_ → _ → _ = none))
  | .start _ | .finish | .cancel | .ping _ _ | .park _ | .resume _ | .turn _ | .drop _ =>
      .isTrue trivial

/-- What the attempts have achieved, with the connections from `n` on. -/
def Achieved (s : ClientRuntime) (n : Nat) : Attempts → Prop
  | .trying => s.world.connections = n
  | .opened c => n ≤ c ∧ c < s.world.connections
  | .stored c => (n ≤ c ∧ c < s.world.connections) ∧ s.world.stored = some c ∧ s.Keeps c
  | .gaveUp _ => s.world.connections = n
  | .took fresh v => fresh = true → ∀ c, v = some c → n ≤ c

variable {n : Nat} {q q' : Attempts}

theorem Achieved.of_keeps (h : s.Achieved n q) (hkeeps : ∀ c, s.Keeps c → s'.Keeps c)
    (hconnections : s'.world.connections = s.world.connections)
    (hstored : s'.world.stored = s.world.stored) : s'.Achieved n q := by
  cases q with
  | trying => exact hconnections.trans h
  | opened c => exact ⟨h.1, hconnections ▸ h.2⟩
  | stored c => exact ⟨⟨h.1.1, hconnections ▸ h.1.2⟩, hstored.trans h.2.1, hkeeps c h.2.2⟩
  | gaveUp v => exact hconnections.trans h
  | took fresh v => exact h

theorem Keeps.of_record {c : Conn} (h : s.Keeps c) (hcell : s'.world.cell = s.world.cell)
    (hrecord : ∀ c, ∀ y ∈ s.world.record c, y ∈ s'.world.record c) : s'.Keeps c := by
  rcases h with h | ⟨h, t, y, hy, howner⟩
  · exact .inl (hcell.trans h)
  · exact .inr ⟨hcell.trans h, t, y, hrecord c y hy, howner⟩

theorem Keeps.cell_eq {c c' : Conn} (h : s.Keeps c) (hcell : s.world.cell = some c') :
    c' = c := by
  rcases h with h | ⟨h, -⟩
  · exact Option.some.inj (hcell.symm.trans h)
  · rw [h] at hcell
    cases hcell

section

variable {th th' : Thread ClientFields (Except Error (List UInt8))} {w' : World}
  {choice : Choice} {x : Option (Except Error (List UInt8))}
  {final : Attempts → ClientFields → Except Error (List UInt8) → Prop}

/-- The operation of the caller takes a step. -/
theorem Achieved.client (h : s.Achieved n q)
    (hm : th.Moves Attempts.discipline K .client s.world q choice w' th' q') :
    Achieved { s with world := w', op := some th', exchanged := x } n q' := by
  cases hm with
  | call hcalls hcall =>
      rename_i s₁ c r k run
      have hconnections := World.call_connections hcall
      have hstored := (World.sameTasks_of_call hcall).stored
      have hcell := World.call_cell hcall
      have hrecord : ∀ c, ∀ y ∈ s.world.record c, y ∈ w'.record c :=
        fun c y hy => (World.call_log hcall).2 ▸ hy
      cases c with
      | loadStream =>
          cases choice <;> simp only [World.call, reduceCtorEq] at hcall
          obtain ⟨rfl, rfl⟩ := Prod.mk.inj (Option.some.inj hcall)
          rcases hcalls with rfl | ⟨c, rfl⟩ | ⟨c, rfl⟩
          · exact h
          · rintro - c' hc'
            exact h.2.2.cell_eq hc' ▸ h.1.1
          · rintro ⟨⟩
      | setStream v =>
          cases v with
          | none =>
              obtain ⟨fresh, v, rfl⟩ := hcalls
              exact h
          | some c =>
              obtain rfl := hcalls
              exact ⟨⟨h.1, hconnections ▸ h.2⟩, hstored, .inl hcell⟩
      | _ => exact h.of_keeps (fun _ hc => hc.of_record hcell hrecord) hconnections hstored
  | wait hex hwaits hwait =>
      rename_i s₁ ts a r k run
      have hstored := (World.sameTasks_of_wait hwait).stored
      have hcell := World.wait_cell hwait
      have hrecord : ∀ c, ∀ y ∈ s.world.record c, y ∈ w'.record c :=
        fun c y hy => (World.wait_log hwait).2 ▸ hy
      have hother (ha : a ≠ .tcpConnect) :
          Achieved { s with world := w', op := some ⟨k (.inr r), none⟩, exchanged := x } n q :=
        h.of_keeps (fun _ hc => hc.of_record hcell hrecord) (World.wait_connections ha hwait)
          hstored
      cases a with
      | tcpConnect =>
          obtain rfl := hwaits
          cases choice <;> simp only [World.wait, reduceCtorEq] at hwait
          · obtain ⟨rfl, rfl⟩ := Prod.mk.inj (Option.some.inj hwait)
            exact ⟨Nat.le_of_eq h.symm, Nat.lt_succ_self _⟩
          · obtain ⟨rfl, rfl⟩ := Prod.mk.inj (Option.some.inj hwait)
            exact h
      | exchange c x buffer => cases hex
      | _ => exact hother (by simp)
  | elapse => exact h.of_keeps (fun _ hc => hc) rfl rfl
  | begins => exact h.of_keeps (fun _ hc => hc) rfl rfl
  | event hanswer =>
      exact h.of_keeps (fun _ hc => hc.of_record rfl fun _ _ hy => hy) rfl rfl
  | ends =>
      exact h.of_keeps (fun _ hc => hc.of_record rfl fun _ _ => World.mem_addRecord) rfl rfl

/-- The call goes over to an old stream in one step only. -/
theorem old_client (h : s.Achieved s₀.world.connections q) (hop : s.op = some th)
    (hbegun : th.Begun K)
    (hm : th.Moves Attempts.discipline K .client s.world q choice w' th' q') :
    q'.Old ↔ q.Old ∨ ¬NothingLeft s₀ s (.client choice) := by
  have other (hlooks : th.looks = false) (hold : q'.Old ↔ q.Old) :
      q'.Old ↔ q.Old ∨ ¬NothingLeft s₀ s (.client choice) := by
    simp [NothingLeft, hop, hlooks, hold]
  cases hm with
  | call hcalls hcall =>
      rename_i s₁ c r k run
      cases c with
      | loadStream =>
          cases choice <;> simp only [World.call, reduceCtorEq] at hcall
          obtain ⟨rfl, rfl⟩ := Prod.mk.inj (Option.some.inj hcall)
          have hleft : NothingLeft s₀ s (.client .go) ↔
              (s.world.connections = s₀.world.connections → s.world.cell = none) := by
            simp [NothingLeft, hop, Thread.looks]
          rw [hleft]
          rcases hcalls with rfl | ⟨c, rfl⟩ | ⟨c, rfl⟩
          · have hnone : s.world.connections = s₀.world.connections := h
            cases hcell : s.world.cell with
            | none => simp [Attempts.discipline, Attempts.loaded, Attempts.Old]
            | some c => simp [Attempts.discipline, Attempts.loaded, Attempts.Old, hnone]
          · have hmade : s.world.connections ≠ s₀.world.connections :=
              Nat.ne_of_gt (Nat.lt_of_le_of_lt h.1.1 h.1.2)
            simp [Attempts.discipline, Attempts.loaded, Attempts.Old, hmade]
          · simp [Attempts.discipline, Attempts.loaded, Attempts.Old]
      | setStream v =>
          cases v with
          | none => exact other rfl Iff.rfl
          | some c =>
              obtain rfl := hcalls
              exact other rfl Iff.rfl
      | _ => exact other rfl Iff.rfl
  | wait hex hwaits hwait =>
      rename_i s₁ ts a r k run
      cases a with
      | tcpConnect =>
          obtain rfl := hwaits
          cases r with
          | ok c => exact other rfl Iff.rfl
          | error e => exact other rfl Iff.rfl
      | exchange c x buffer => cases hex
      | _ => exact other rfl Iff.rfl
  | elapse => exact other rfl Iff.rfl
  | begins => exact other rfl Iff.rfl
  | event hanswer =>
      obtain ⟨s₁, ts, buffer, k, htask, -⟩ := hbegun _ rfl
      dsimp only at htask
      subst htask
      exact other rfl Iff.rfl
  | ends => exact other rfl Iff.rfl

/-- An exchange is on the connection that was taken. -/
theorem took_of_ongoing {x : Ongoing} (hbegun : th.Begun K)
    (hobeys : th.task.Obeys Attempts.discipline final q)
    (hx : th.ongoing = some x) : ∃ fresh, q = .took fresh (some x.conn) := by
  obtain ⟨run, hrun, rfl⟩ := Option.map_eq_some_iff.mp hx
  obtain ⟨s₁, ts, buffer, k, htask, -⟩ := hbegun run hrun
  rw [htask] at hobeys
  exact hobeys.1

/-- Nothing is sent or received on the connections that were there before. -/
theorem said_client (h : s.Achieved n q) (hold : ¬q.Old)
    (hbegun : th.Begun K) (hobeys : th.task.Obeys Attempts.discipline final q)
    (hm : th.Moves Attempts.discipline K .client s.world q choice w' th' q') {c : Conn}
    (hc : c < n) : w'.said .client c = s.world.said .client c := by
  cases hm with
  | call hcalls hcall => rw [World.said, (World.call_log hcall).1, World.said]
  | wait _ _ hwait => rw [World.said, (World.wait_log hwait).1, World.said]
  | elapse => rfl
  | begins => rfl
  | event hanswer =>
      obtain ⟨fresh, rfl⟩ := took_of_ongoing hbegun hobeys rfl
      rw [World.said_addWire, Function.update_of_ne]
      rintro rfl
      cases fresh with
      | true => exact absurd (h rfl _ rfl) (Nat.not_le.mpr hc)
      | false => exact hold trivial
  | ends => rfl

/-- How far the attempts of a call that began in `s₀` have come. -/
structure Attempting (K : ClientKind) (s₀ : ClientRuntime)
    (final : Attempts → ClientFields → Except Error (List UInt8) → Prop) (s : ClientRuntime)
    (q : Attempts) : Prop where
  achieved : s.Achieved s₀.world.connections q
  said : ¬q.Old → ∀ c < s₀.world.connections, s.world.said .client c = s₀.world.said .client c
  obeys : ∀ th, s.op = some th → th.Begun K ∧ th.task.Obeys Attempts.discipline final q
  returned : s.op = none → ∃ fields r, s.result = some r ∧ final q fields r

theorem Attempting.step (h : Attempting K s₀ final s q) (hR : Refines K s S) (hS : S.Sound)
    (hfailures : S.Failures) (ha : a.awaits = true) (hs : ClientRuntime.step K s a = some s') :
    ∃ q', Attempting K s₀ final s' q' ∧ (q'.Old ↔ q.Old ∨ ¬NothingLeft s₀ s a) := by
  have hothers (hothers : a.others = true) : Attempting K s₀ final s' q := by
    obtain ⟨⟨hop, -, hresult, -⟩, t, hquiet⟩ := step_others hR hS hfailures hothers hs
    obtain ⟨hconnections, hstored⟩ := step_others_stored hR hothers hs
    refine ⟨h.achieved.of_keeps (fun _ hc => hc.of_quiet hquiet) hconnections hstored, ?_, ?_, ?_⟩
    · rw [hquiet.said]
      exact h.said
    · rw [hop]
      exact h.obeys
    · rw [hop, hresult]
      exact h.returned
  have hsame : q.Old ↔ q.Old ∨ ¬True := by simp
  cases a with
  | start op => cases ha
  | cancel => cases ha
  | client choice =>
      simp only [ClientRuntime.step] at hs
      split at hs
      · rename_i th hop
        simp only [Option.map_eq_some_iff, Prod.exists] at hs
        obtain ⟨w', th', hstep, rfl⟩ := hs
        obtain ⟨hbegun, hobeys⟩ := h.obeys th hop
        obtain ⟨q', hobeys', hmove⟩ := Thread.Moves.of_step hobeys hstep
        have hold := old_client h.achieved hop hbegun hmove
        refine ⟨q', ⟨h.achieved.client hmove, fun hnew c hc => ?_, ?_, by simp⟩, hold⟩
        · have hnew' : ¬q.Old := fun hq => hnew (hold.mpr (.inl hq))
          exact (said_client h.achieved hnew' hbegun hobeys hmove hc).trans (h.said hnew' c hc)
        · rintro th ⟨⟩
          exact ⟨hbegun.move hmove, hobeys'⟩
      · cases hs
  | finish =>
      simp only [ClientRuntime.step] at hs
      split at hs
      · rename_i fields r running hop
        cases hs
        obtain ⟨-, hobeys⟩ := h.obeys _ hop
        exact ⟨q, ⟨h.achieved.of_keeps (fun _ hc => hc) rfl rfl, h.said, by simp,
          fun _ => ⟨fields, r, rfl, hobeys⟩⟩, hsame⟩
      · cases hs
  | ping t choice => exact ⟨q, hothers rfl, hsame⟩
  | park t => exact ⟨q, hothers rfl, hsame⟩
  | resume t => exact ⟨q, hothers rfl, hsame⟩
  | turn t => exact ⟨q, hothers rfl, hsame⟩
  | drop t => exact ⟨q, hothers rfl, hsame⟩

theorem Attempting.run {acts : List Act} (h : Attempting K s₀ final s q)
    (hreach : (machine K).Reachable Machine.anyStep s) (hawaits : ∀ a ∈ acts, a.awaits = true)
    (hrun : (machine K).run s acts = some s') :
    ∃ q', Attempting K s₀ final s' q' ∧
      (q'.Old ↔ q.Old ∨ ¬(machine K).Along (NothingLeft s₀) s acts) := by
  induction acts generalizing s q with
  | nil =>
      cases hrun
      exact ⟨q, h, by simp [Machine.Along]⟩
  | cons a acts ih =>
      rw [Machine.run_cons, Option.bind_eq_some_iff] at hrun
      obtain ⟨t, ht, hrun⟩ := hrun
      obtain ⟨S, hR, hS, hfailures⟩ := shared_of_reachable hreach
      obtain ⟨q', h', hold'⟩ := h.step hR hS hfailures (hawaits a List.mem_cons_self) ht
      obtain ⟨q'', h'', hold''⟩ := ih h' (hreach.step trivial ht)
        (fun b hb => hawaits b (List.mem_cons_of_mem _ hb)) hrun
      refine ⟨q'', h'', ?_⟩
      have hnext : (∀ t', (machine K).step s a = some t' →
          (machine K).Along (NothingLeft s₀) t' acts) ↔
          (machine K).Along (NothingLeft s₀) t acts := by simp [ht]
      rw [hold'', hold', Machine.Along, hnext, or_assoc, not_and_or]

end

/-- `connect` has succeeded only if it has stored a stream of its own, which is in the cell
still unless a ping on it has failed, and it has failed if none of its attempts has. -/
structure Connected (s₀ s : ClientRuntime) : Prop where
  success : ∀ response, s.result = some (.ok response) → ∃ c,
    (s₀.world.connections ≤ c ∧ c < s.world.connections) ∧ s.world.stored = some c ∧ s.Keeps c
  failure : (∀ c, s₀.world.connections ≤ c → s.world.stored ≠ some c) →
    ∃ e, s.result = some (.error e)

/-- The caller uses no connection that was made before `s₀`. -/
structure UsesNew (s₀ s : ClientRuntime) : Prop where
  ongoing : ∀ x, s.ongoing .client = some x → s₀.world.connections ≤ x.conn
  said : ∀ c < s₀.world.connections, s.world.said .client c = s₀.world.said .client c

theorem Attempting.connected (h : Attempting K s₀ (fun q _ r => q.Returns r) s q)
    (hop : s.op = none) : Connected s₀ s ↔ ¬q.Old := by
  obtain ⟨fields, r, hresult, hr⟩ := h.returned hop
  have hachieved := h.achieved
  have failed (hr : ∃ e, r = .error e) : Connected s₀ s := by
    obtain ⟨e, rfl⟩ := hr
    refine ⟨fun response hok => ?_, fun _ => ⟨e, hresult⟩⟩
    rw [hresult] at hok
    cases hok
  rcases q with _ | c | c | (_ | c) | ⟨fresh, v⟩
  · exact iff_of_true (failed hr) id
  · exact iff_of_true (failed hr) id
  · refine iff_of_true ⟨fun _ _ => ⟨c, hachieved⟩, fun hnone => ?_⟩ id
    exact absurd hachieved.2.1 (hnone c hachieved.1.1)
  · exact iff_of_true (failed hr) id
  · refine iff_of_false (fun hconnected => ?_) fun hnew => hnew trivial
    obtain ⟨response, rfl⟩ := hr
    obtain ⟨c', ⟨hle, hlt⟩, -⟩ := hconnected.success response hresult
    rw [show s.world.connections = s₀.world.connections from hachieved] at hlt
    exact Nat.not_le.mpr hlt hle
  · exact hr.elim

theorem Attempting.uses_new {final : Attempts → ClientFields → Except Error (List UInt8) → Prop}
    (h : Attempting K s₀ final s q) (hold : ¬q.Old) : UsesNew s₀ s := by
  refine ⟨fun x hx => ?_, h.said hold⟩
  obtain ⟨th, hop, hth⟩ := Option.bind_eq_some_iff.mp (show s.op.bind _ = some x from hx)
  obtain ⟨hbegun, hobeys⟩ := h.obeys th hop
  obtain ⟨fresh, rfl⟩ := took_of_ongoing hbegun hobeys hth
  cases fresh with
  | true => exact h.achieved rfl _ rfl
  | false => exact absurd trivial hold

theorem Attempting.start {final : Attempts → ClientFields → Except Error (List UInt8) → Prop}
    {op : ClientOp} {s₁ : ClientRuntime} (hs : ClientRuntime.step K s₀ (.start op) = some s₁)
    (hobeys : (op.program K s₀.fields).Obeys Attempts.discipline final .trying) :
    Attempting K s₀ final s₁ .trying := by
  simp only [ClientRuntime.step] at hs
  split at hs
  · cases hs
    refine ⟨rfl, fun _ _ _ => rfl, ?_, by simp⟩
    rintro th ⟨⟩
    exact ⟨.of_none, hobeys⟩
  · cases hs

/-- A call of `connect` does what its result says if and only if nothing is left in the
cell where all its attempts have failed; a call of `handle_message` without keep-alive
uses connections of its own then. -/
theorem connect_means_connected {op : ClientOp} {acts : List Act}
    (h : (machine K).Reachable Machine.anyStep s₀) (hawaits : ∀ a ∈ acts, a.awaits = true)
    (hrun : (machine K).run s₀ (.start op :: acts) = some s) :
    (op = .connect → s.op = none →
      (Connected s₀ s ↔ (machine K).Along (NothingLeft s₀) s₀ (.start op :: acts))) ∧
    ∀ command data, op = .handleMessage command data → s₀.fields.keepAlive = false →
      (machine K).Along (NothingLeft s₀) s₀ (.start op :: acts) → UsesNew s₀ s := by
  rw [Machine.run_cons, Option.bind_eq_some_iff] at hrun
  obtain ⟨s₁, hs₁, hrun⟩ := hrun
  have hreach₁ : (machine K).Reachable Machine.anyStep s₁ := h.step trivial hs₁
  have halong : (machine K).Along (NothingLeft s₀) s₀ (.start op :: acts) ↔
      (machine K).Along (NothingLeft s₀) s₁ acts := by
    simp [Machine.Along, NothingLeft, hs₁]
  rw [halong]
  constructor
  · rintro rfl hop
    obtain ⟨q, hq, hold⟩ := (Attempting.start hs₁ Attempts.program_connect).run hreach₁ hawaits hrun
    rw [hq.connected hop, hold]
    simp [Attempts.Old]
  · rintro command data rfl hkeep hnothing
    obtain ⟨q, hq, hold⟩ :=
      (Attempting.start hs₁ (Attempts.handleMessage_obeys hkeep)).run hreach₁ hawaits hrun
    refine hq.uses_new fun hq' => ?_
    rcases hold.mp hq' with hno | hno
    · exact hno
    · exact hno hnothing

/-- All attempts of a call are refused, and it looks into the cell. -/
def refused : List Act :=
  (List.replicate defaultMaxConnectRetries [.client (.fail (.other 111)), .client .go]).flatten ++
    clientGoes 3

theorem connect_means_connected_refused :
    ∃ s, (machine .tl).run new (.start .connect :: (refused ++ [.finish])) = some s ∧
      Connected new s := by
  obtain ⟨s, hs, hop⟩ := Option.map_eq_some_iff.mp
    (show ((machine .tl).run new (.start .connect :: (refused ++ [.finish]))).map (·.op.isNone) =
      some true by decide +kernel)
  refine ⟨s, hs, ?_⟩
  refine ((connect_means_connected (.init fresh_new) (by decide) hs).1 rfl
    (Option.isNone_iff_eq_none.mp hop)).mpr ?_
  decide +kernel

/-- A call of `connect` whose first attempt succeeds, without keep-alive. -/
def connectingOnce : List Act := .start .connect :: (clientGoes 10 ++ [.finish])

/-- The stream of a call without keep-alive is left in the cell. When all attempts of the
next call are refused, that succeeds nevertheless; and a request is sent over the old stream. -/
theorem leftover_stream_connects :
    ∃ s₀ s s', (machine .tl).run new connectingOnce = some s₀ ∧
      (machine .tl).run s₀ (.start .connect :: (refused ++ [.finish])) = some s ∧
      s.op = none ∧ ¬Connected s₀ s ∧
      (machine .tl).run s₀ (.start (.handleMessage 7 []) :: (refused ++ clientGoes 4)) = some s' ∧
      s₀.fields.keepAlive = false ∧ ¬UsesNew s₀ s' := by
  obtain ⟨s₀, hs₀, hproj₀⟩ := Option.map_eq_some_iff.mp
    (show ((machine .tl).run new connectingOnce).map
      (fun s => (s.world.connections, s.fields.keepAlive)) = some (1, false) by decide +kernel)
  obtain ⟨s, hs, hproj⟩ := Option.map_eq_some_iff.mp
    (show ((machine .tl).run new
        (connectingOnce ++ .start .connect :: (refused ++ [.finish]))).map
      (fun s => (s.op.isNone, s.result.any Except.isOk, s.world.connections)) =
        some (true, true, 1) by decide +kernel)
  obtain ⟨s', hs', hproj'⟩ := Option.map_eq_some_iff.mp
    (show ((machine .tl).run new
        (connectingOnce ++ .start (.handleMessage 7 []) :: (refused ++ clientGoes 4))).map
      (fun s => (s.ongoing .client).map (·.conn)) = some (some 0) by decide +kernel)
  rw [Machine.run_append, hs₀, Option.bind_some] at hs hs'
  simp only [Prod.mk.injEq, Option.isNone_iff_eq_none] at hproj₀ hproj
  obtain ⟨hone₀, hkeep⟩ := hproj₀
  obtain ⟨hop, hok, hone⟩ := hproj
  refine ⟨s₀, s, s', hs₀, hs, hop, fun hconnected => ?_, hs', hkeep, fun huses => ?_⟩
  · obtain ⟨_ | response, hresult, hisOk⟩ := (Option.any_eq_true _ _).mp hok
    · cases hisOk
    · obtain ⟨c, ⟨hle, hlt⟩, -⟩ := hconnected.success response hresult
      omega
  · obtain ⟨x, hx, hconn⟩ := Option.map_eq_some_iff.mp hproj'
    have hle := huses.ongoing x hx
    rw [show x.conn = 0 from hconn, hone₀] at hle
    cases hle

end

end ClientRuntime

end Wagonet
