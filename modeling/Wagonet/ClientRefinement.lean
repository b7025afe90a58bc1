import Wagonet.ClientSteps
import Wagonet.SharedStream

/-!
A client refines the stream that its threads share.

Its programs follow the discipline of the stream, so each step of a client is one
of the steps that the discipline allows, or it does not concern the stream at all.
Whatever holds of the shared stream in all its runs holds of a client, then.
-/

namespace Wagonet

open Library

namespace ClientRuntime

variable {K : ClientKind}

/-- The rules of the stream. -/
def streamRegime (K : ClientKind) : Regime K Local where
  client := Local.discipline true
  ping := Local.discipline false
  start _ := .start
  ends _ q _ _ := q.settled
  idle := .start
  program op fields := by
    have hstart : Local.start.settled := ⟨rfl, nofun⟩
    have hvoid {m : Async ClientIO ClientFields Error Unit}
        (h : (m fields).Obeys (Local.discipline true) (fun q _ _ => q.settled) .start) :
        ((m >>= fun _ => pure []) fields).Obeys (Local.discipline true)
          (fun q _ (_ : Except Error (List UInt8)) => q.settled) .start := by
      refine Async.obeys_bind (h.mono fun q s r hq => ?_)
      match r with
      | .ok () => exact hq
      | .error _ => exact hq
    cases op with
    | connect => exact hvoid (Client.connect_obeys hstart)
    | handleMessage command requestData => exact Client.handleMessage_obeys hstart
    | disconnect => exact hvoid (Client.disconnect_obeys hstart)
    | setKeepAlive enabled => exact hvoid (Client.setKeepAlive_obeys hstart)
    | setTimeoutConfig timeoutConfig => exact hvoid (Client.setTimeoutConfig_obeys hstart)
  iteration := PingState.pingIteration_obeys

/-! ### One thread -/

/-- The exchange that a thread is in. -/
def Thread.ongoing {σ α : Type} (th : Thread σ α) : Option Ongoing := th.running.map (·.toOngoing)

/-- What the threads share is as the shared stream has it. -/
structure World.Shows (w : World) (S : SharedStream) : Prop where
  owner : S.owner = w.holder .stream
  cell : S.cell = w.cell
  stored : S.stored = w.stored
  connections : S.connections = w.connections
  homes : S.homes = w.homes
  aborted : S.aborted = w.aborted
  wire : S.wire = w.wire
  record : S.record = w.record

/-- The step of the shared stream is one that this thread takes. -/
def Thread.Tells {σ α : Type} (g : Agent) (th : Thread σ α) : SharedStream.Label → Prop
  | .begins g' x => g' = g ∧ th.running = none ∧ x.events = [] ∧
      ∃ s ts buffer k, th.task = .await s (.wait ts (.exchange x.conn x.exchange buffer)) k
  | .ends g' r => g' = g ∧ th.outcome = some r
  | .event g' _ => g' = g
  | .abort t => ∃ s k, th.task = .await s (.call (.abort t)) k
  | .drop _ => False
  | .settle => False
  | _ => True

/-- A step of a thread, told of the shared stream. -/
structure Thread.Tracks {σ α : Type} (g : Agent) (w' : World) (th : Thread σ α)
    (th' : Thread σ α) (q' : Local) (S : SharedStream) (l : SharedStream.Label) : Prop where
  enabled : S.enabled l
  tells : th.Tells g l
  shows : w'.Shows (S.apply l)
  loc : (S.apply l).loc = Function.update S.loc g q'
  running : (S.apply l).running = Function.update S.running g th'.ongoing
  dropped : (S.apply l).dropped = S.dropped

section

variable {σ α : Type} {caller : Bool} {g : Agent} {w w' : World} {th th' : Thread σ α}
  {q q' : Local} {choice : Choice} {S : SharedStream}

/-- The step concerns nothing that is shared. -/
def Thread.Idles (g : Agent) (w' : World) (th th' : Thread σ α) (q' : Local)
    (S : SharedStream) : Prop :=
  w'.Shows S ∧ q' = S.loc g ∧ th'.ongoing = none ∧ th.ongoing = none

theorem Thread.Begun.running_eq_none {s : σ} {o : ClientIO.Op}
    {k : Interface.Reply ClientIO o → Task ClientIO σ α} {run : Option Running}
    (h : (⟨.await s o k, run⟩ : Thread σ α).Begun K)
    (ho : ∀ ts c x buffer, o ≠ .wait ts (.exchange c x buffer)) : run = none := by
  cases run with
  | none => rfl
  | some run =>
      obtain ⟨s', ts, buffer, k', htask, -⟩ := h run rfl
      dsimp only at htask
      cases htask
      exact absurd rfl (ho _ _ _ _)

theorem Thread.Begun.running_eq_none_of_done {s : σ} {a : α} {run : Option Running}
    (h : (⟨.done s a, run⟩ : Thread σ α).Begun K) : run = none := by
  cases run with
  | none => rfl
  | some run =>
      obtain ⟨s', ts, buffer, k', htask, -⟩ := h run rfl
      cases htask

theorem update_running (h : S.running g = none) :
    S.running = Function.update S.running g none := by
  rw [← h, Function.update_eq_self]

theorem abort_world (w : World) (t : Nat) :
    (if t < w.homes.length then { w with aborted := t :: w.aborted } else w) =
      { w with aborted := if t < w.homes.length then t :: w.aborted else w.aborted } := by
  split <;> rfl

/-- A call that the shared stream does not know of. -/
theorem Thread.idles_of_world {t : Task ClientIO σ α} {t' : Task ClientIO σ α}
    (hshows : w.Shows S) (howner : w'.holder .stream = w.holder .stream)
    (hw : (w'.cell, w'.stored, w'.connections, w'.homes, w'.aborted) =
      (w.cell, w.stored, w.connections, w.homes, w.aborted))
    (hlog : w'.wire = w.wire ∧ w'.record = w.record) :
    Thread.Idles g w' ⟨t, none⟩ ⟨t', none⟩ (S.loc g) S := by
  simp only [Prod.mk.injEq] at hw
  obtain ⟨hcell, hstored, hconn, hhomes, haborted⟩ := hw
  refine ⟨⟨?_, ?_, ?_, ?_, ?_, ?_, ?_, ?_⟩, rfl, rfl, rfl⟩
  · rw [howner, hshows.owner]
  · rw [hcell, hshows.cell]
  · rw [hstored, hshows.stored]
  · rw [hconn, hshows.connections]
  · rw [hhomes, hshows.homes]
  · rw [haborted, hshows.aborted]
  · rw [hlog.1, hshows.wire]
  · rw [hlog.2, hshows.record]

theorem Thread.tracks_call {s : σ} {c : ClientCall} {r : c.Reply}
    {k : c.Reply → Task ClientIO σ α} (hcaller : caller = true → g = .client)
    (hping : g ≠ .client → caller = false) (hshows : w.Shows S) (hrun : S.running g = none)
    (hcalls : (Local.discipline caller : Discipline _ _ _ σ).calls (S.loc g) c)
    (hcall : w.call g c choice = some (r, w')) :
    Thread.Idles g w' ⟨.await s (.call c) k, none⟩ ⟨k r, none⟩
        ((Local.discipline caller : Discipline _ _ _ σ).called (S.loc g) c r) S ∨
      ∃ l, Thread.Tracks g w' ⟨.await s (.call c) k, none⟩ ⟨k r, none⟩
        ((Local.discipline caller : Discipline _ _ _ σ).called (S.loc g) c r) S l := by
  cases c with
  | tryLock m =>
      have hm : m ≠ .stream := hcalls
      cases choice <;> simp only [World.call, reduceCtorEq] at hcall
      split at hcall <;> cases hcall
      · exact .inl (idles_of_world hshows (if_neg hm.symm) rfl ⟨rfl, rfl⟩)
      · exact .inl (idles_of_world hshows rfl rfl ⟨rfl, rfl⟩)
  | unlock m =>
      cases choice <;> simp only [World.call, reduceCtorEq] at hcall
      cases hcall
      by_cases hm : m = .stream
      · subst hm
        refine .inr ⟨.unlock g, ⟨hcalls, hrun⟩, trivial, ?_, rfl, update_running hrun, rfl⟩
        exact { hshows with owner := by simp [SharedStream.apply, World.setHolder] }
      · have hq : (Local.discipline caller : Discipline _ _ _ σ).called (S.loc g) (.unlock m) () =
            S.loc g := (discipline_unlock (σ := σ) caller (S.loc g) hm).2
        rw [hq]
        exact .inl (idles_of_world hshows (if_neg (Ne.symm hm)) rfl ⟨rfl, rfl⟩)
  | loadStream =>
      cases choice <;> simp only [World.call, reduceCtorEq] at hcall
      cases hcall
      refine .inr ⟨.load g, hcalls, trivial, { hshows with }, ?_, update_running hrun, rfl⟩
      simp only [SharedStream.apply, hshows.cell]
      rfl
  | setStream v =>
      cases v with
      | none =>
          cases choice <;> simp only [World.call, reduceCtorEq] at hcall
          cases hcall
          refine .inr ⟨.clear g, ⟨hcalls.1, hrun, fun hg => hcalls.2 (hping hg)⟩, trivial, ?_, rfl,
            update_running hrun, rfl⟩
          exact { hshows with cell := rfl }
      | some c =>
          cases choice <;> simp only [World.call, reduceCtorEq] at hcall
          cases hcall
          obtain ⟨htrue, hlock, hfresh, hmode⟩ := hcalls
          obtain rfl := hcaller htrue
          refine .inr ⟨.store c, ⟨hlock, hrun, hfresh, hmode⟩, trivial, ?_, rfl,
            update_running hrun, rfl⟩
          exact { hshows with
            cell := rfl
            stored := rfl }
  | spawn =>
      cases choice <;> simp only [World.call, reduceCtorEq] at hcall
      cases hcall
      obtain rfl := hcaller hcalls.1
      refine .inr ⟨.spawn, hcalls.2, trivial, ?_, rfl, update_running hrun, rfl⟩
      refine { hshows with homes := ?_ }
      simp only [SharedStream.apply, SharedStream.withLocal_homes, hshows.homes, hshows.stored]
  | abort t =>
      cases choice <;> simp only [World.call, reduceCtorEq] at hcall
      cases hcall
      obtain rfl := hcaller hcalls
      refine .inr ⟨.abort t, trivial, ⟨s, k, rfl⟩, ?_, rfl, update_running hrun, rfl⟩
      rw [abort_world]
      refine { hshows with aborted := ?_ }
      simp only [SharedStream.apply, SharedStream.withLocal_aborted, hshows.homes, hshows.aborted]
  | _ =>
      cases choice <;> simp only [World.call, reduceCtorEq] at hcall <;> cases hcall <;>
        exact .inl (idles_of_world hshows rfl rfl ⟨rfl, rfl⟩)

theorem Thread.tracks_wait {s : σ} {ts : List Timer} {a : ClientAwait} {r : a.Reply}
    {k : Fin ts.length ⊕ a.Reply → Task ClientIO σ α} (hcaller : caller = true → g = .client)
    (hshows : w.Shows S) (hrun : S.running g = none)
    (hwaits : (Local.discipline caller).waits (S.loc g) s a) (hex : a.isExchange = false)
    (hwait : w.wait g a choice = some (r, w')) :
    Thread.Idles g w' ⟨.await s (.wait ts a) k, none⟩ ⟨k (.inr r), none⟩
        ((Local.discipline caller : Discipline _ _ _ σ).waited (S.loc g) a r) S ∨
      ∃ l, Thread.Tracks g w' ⟨.await s (.wait ts a) k, none⟩ ⟨k (.inr r), none⟩
        ((Local.discipline caller : Discipline _ _ _ σ).waited (S.loc g) a r) S l := by
  cases a with
  | lock m =>
      cases choice <;> simp only [World.wait, reduceCtorEq] at hwait
      split at hwait <;> cases hwait
      rename_i hfree
      by_cases hm : m = .stream
      · subst hm
        refine .inr ⟨.lock g, hshows.owner.trans hfree, trivial, ?_, rfl, update_running hrun, rfl⟩
        exact { hshows with owner := by simp [SharedStream.apply, World.setHolder] }
      · have hq : (Local.discipline caller : Discipline _ _ _ σ).waited (S.loc g) (.lock m) () =
            S.loc g := (discipline_lock caller s hm (calm_of_waits caller hwaits)).2
        rw [hq]
        exact .inl (idles_of_world hshows (if_neg (Ne.symm hm)) rfl ⟨rfl, rfl⟩)
  | tcpConnect =>
      obtain rfl := hcaller hwaits.1
      cases choice <;> simp only [World.wait, reduceCtorEq] at hwait <;> cases hwait
      · refine .inr ⟨.connect, trivial, trivial, ?_, ?_, update_running hrun, rfl⟩
        · refine { hshows with connections := ?_ }
          simp only [SharedStream.apply, SharedStream.withLocal_connections, hshows.connections]
        · simp only [SharedStream.apply, hshows.connections]
          rfl
      · exact .inl (idles_of_world hshows rfl rfl ⟨rfl, rfl⟩)
  | exchange c x buffer => cases hex
  | _ =>
      cases choice <;> simp only [World.wait, reduceCtorEq] at hwait <;> cases hwait <;>
        exact .inl (idles_of_world hshows rfl rfl ⟨rfl, rfl⟩)

theorem addRecord_record (w : World) (c : Conn) (x : Segment) :
    (w.addRecord c x).record = Function.update w.record c (w.record c ++ [x]) := by
  funext c'
  by_cases heq : c' = c
  · subst heq
    simp [World.addRecord]
  · simp [World.addRecord, heq]

theorem addWire_wire (w : World) (c : Conn) (e : Agent × (Net Interface.empty).Event) :
    (w.addWire c e).wire = Function.update w.wire c (w.wire c ++ [e]) := by
  funext c'
  by_cases heq : c' = c
  · subst heq
    simp [World.addWire]
  · simp [World.addWire, heq]

/-- A step of a thread concerns nothing that is shared, or it is a step of the shared
stream. -/
theorem Thread.Moves.tracks (hcaller : caller = true → g = .client)
    (hping : g ≠ .client → caller = false) (hbegun : th.Begun K) (hshows : w.Shows S)
    (hrun : S.running g = th.ongoing) (hlive : g ∈ S.dropped → g = .client)
    (hm : th.Moves (Local.discipline caller) K g w (S.loc g) choice w' th' q') :
    th.Idles g w' th' q' S ∨ ∃ l, th.Tracks g w' th' q' S l := by
  cases hm with
  | call hcalls hcall =>
      obtain rfl := hbegun.running_eq_none nofun
      exact Thread.tracks_call hcaller hping hshows hrun hcalls hcall
  | wait hex hwaits hwait =>
      obtain rfl := hbegun.running_eq_none (by rintro ts c x buffer ⟨⟩; cases hex)
      exact Thread.tracks_wait hcaller hshows hrun hwaits hex hwait
  | elapse hex =>
      obtain rfl := hbegun.running_eq_none (by rintro ts c x buffer ⟨⟩; cases hex)
      exact .inl ⟨hshows, rfl, rfl, rfl⟩
  | begins hwaits =>
      rename_i s ts c x buffer k
      obtain ⟨hhold, hmode, -⟩ := hwaits
      refine .inr ⟨.begins g ⟨c, x, []⟩, ⟨hhold, hmode, hrun, rfl, hlive⟩, ?_, { hshows with }, ?_,
        rfl, rfl⟩
      · exact ⟨rfl, rfl, rfl, s, ts, buffer, k, rfl⟩
      · exact (Function.update_eq_self g S.loc).symm
  | event hanswer =>
      rename_i t x s o r k
      have hx : S.running g = some x := hrun
      refine .inr ⟨.event g ⟨o, r⟩, by simp [SharedStream.enabled, hx], rfl, ?_, ?_, ?_, ?_⟩ <;>
        rw [SharedStream.apply_event hx]
      · refine { hshows with wire := ?_ }
        rw [addWire_wire, hshows.wire]
      · exact (Function.update_eq_self g S.loc).symm
      · rfl
  | ends =>
      rename_i s ts c x buffer buffer' y k r
      have hx : S.running g = some y := hrun
      obtain ⟨s', ts', buffer'', k', htask, -⟩ := hbegun _ rfl
      dsimp only at htask
      cases htask
      refine .inr ⟨.ends g r, by simp [SharedStream.enabled, hx], ⟨rfl, rfl⟩, ?_, ?_, ?_, ?_⟩ <;>
        rw [SharedStream.apply_ends hx]
      · simp only [SharedStream.endExchange, hx]
        refine { hshows with record := ?_ }
        rw [addRecord_record, ← hshows.record]
        rfl
      · cases r <;> rfl
      · rfl
      · rfl

/-- Dropping a thread unlocks what it has locked, and ends its exchange. -/
theorem Thread.shows_drop (hshows : w.Shows S) (hrun : S.running g = th.ongoing) :
    (th.drop g w).Shows (S.apply (.drop g)) := by
  obtain ⟨task, running⟩ := th
  cases running with
  | none =>
      have hx : S.running g = none := hrun
      simp only [SharedStream.apply, SharedStream.endExchange, hx]
      refine { hshows with owner := ?_ }
      simp only [SharedStream.withLocal, Thread.drop, World.release, hshows.owner]
  | some run =>
      have hx : S.running g = some run.toOngoing := hrun
      simp only [SharedStream.apply, SharedStream.endExchange, hx]
      refine { hshows with
        owner := ?_
        record := ?_ }
      · simp only [SharedStream.withLocal, Thread.drop, World.release, hshows.owner]
        rfl
      · simp only [SharedStream.withLocal, Thread.drop, World.release]
        rw [addRecord_record, ← hshows.record]

end

/-! ### All threads -/

/-- The exchange that each thread is in. -/
def ongoing (s : ClientRuntime) : Agent → Option Ongoing
  | .client => s.op.bind (·.ongoing)
  | .ping t => if (s.pings t).ended then none else (s.pings t).thread.ongoing

/-- A client, and the stream that its threads share. -/
structure Refines (K : ClientKind) (s : ClientRuntime) (S : SharedStream) : Prop where
  obeyed : (streamRegime K).Obeyed s S.loc
  shows : s.world.Shows S
  running : S.running = s.ongoing
  settled : s.op = none → (S.loc .client).settled
  dropped : ∀ t, .ping t ∈ S.dropped → (s.pings t).ended = true

/-- The steps of the shared stream that an action can be. -/
def Act.Tells (s : ClientRuntime) : Act → SharedStream.Label → Prop
  | .start _, l => l = .settle
  | .client _, l => ∃ th, s.op = some th ∧ th.Tells .client l
  | .cancel, l => l = .drop .client
  | .ping t _, l => (s.pings t).thread.Tells (.ping t) l
  | .drop t, l => t ∈ s.world.aborted ∧ l = .drop (.ping t)
  | _, _ => False

theorem World.Shows.withLocal {w : World} {S : SharedStream} {g : Agent} {q : Local}
    (h : w.Shows S) : w.Shows (S.withLocal g q) :=
  ⟨h.owner, h.cell, h.stored, h.connections, h.homes, h.aborted, h.wire, h.record⟩

theorem refines_of_fresh {s : ClientRuntime} (h : Fresh s) :
    ∃ S, SharedStream.machine.init S ∧ Refines K s S := by
  have hongoing : s.ongoing = fun _ => none := by
    funext g
    cases g with
    | client => simp [ongoing, h.op]
    | ping t => simp [ongoing, h.pings t, Thread.ongoing]
  refine ⟨⟨none, none, none, s.world.connections, [], [], [], s.world.wire, s.world.record,
    fun _ => .start, fun _ => none⟩, ?_, ?_⟩
  · exact ⟨rfl, rfl, rfl, rfl, rfl, h.wire, h.record, fun _ => rfl, fun _ => rfl⟩
  · exact ⟨Regime.obeyed_of_fresh (streamRegime K) h,
      ⟨(h.unlocked _).symm, h.cell.symm, h.stored.symm, rfl, h.homes.symm, h.aborted.symm, rfl,
        rfl⟩,
      hongoing.symm, fun _ => ⟨rfl, nofun⟩, nofun⟩

section

variable {s s' : ClientRuntime} {S : SharedStream} {a : Act}

theorem ongoing_setPing {t : Nat} {p : PingTask} :
    (s.setPing t p).ongoing =
      Function.update s.ongoing (.ping t) (if p.ended then none else p.thread.ongoing) := by
  funext g
  cases g with
  | client => rfl
  | ping t' =>
      by_cases heq : t' = t
      · subst heq
        simp [ongoing, setPing]
      · simp [ongoing, setPing, heq]

theorem ongoing_op {w : World} {th : Option (Thread ClientFields (Except Error (List UInt8)))} :
    ({ s with world := w, op := th } : ClientRuntime).ongoing =
      Function.update s.ongoing .client (th.bind (·.ongoing)) := by
  funext g
  cases g with
  | client => rfl
  | ping t => rfl

theorem Refines.pings_not_dropped (h : Refines K s S) {t : Nat} (ht : s.alive t) :
    .ping t ∈ S.dropped → Agent.ping t = .client :=
  fun hmem => absurd (ht.2.symm.trans (h.dropped t hmem)) nofun

/-- A ping task is suspended or polled again, or begins or ends an iteration. -/
theorem Refines.setPing {t : Nat} {p : PingTask} (h : Refines K s S)
    (hobeyed : (streamRegime K).Obeyed (s.setPing t p) S.loc)
    (hongoing : (if p.ended then none else p.thread.ongoing) = s.ongoing (.ping t))
    (hended : (s.pings t).ended = true → p.ended = true) : Refines K (s.setPing t p) S := by
  refine ⟨hobeyed, h.shows, ?_, h.settled, fun t' ht' => ?_⟩
  · rw [ongoing_setPing, hongoing, Function.update_eq_self, h.running]
  · by_cases heq : t' = t
    · subst heq
      simpa [ClientRuntime.setPing] using hended (h.dropped t' ht')
    · simpa [ClientRuntime.setPing, heq] using h.dropped t' ht'

theorem Refines.ongoing_eq_none_of_done {t : Nat} {r : Except Error Bool} (h : Refines K s S)
    (ht : s.alive t) (htask : (s.pings t).thread.task = .done () r) :
    s.ongoing (.ping t) = none := by
  have hbegun := (h.obeyed.ping t ht.2).1
  rw [ongoing, if_neg (by simp [ht.2])]
  cases hrunning : (s.pings t).thread.running with
  | none => rw [Thread.ongoing, hrunning, Option.map_none]
  | some run =>
      obtain ⟨s', ts, buffer, k', hawait, -⟩ := hbegun run hrunning
      rw [htask] at hawait
      cases hawait

/-- A step of a client is a step of the shared stream, or none at all. -/
theorem Refines.step (h : Refines K s S) (hs : ClientRuntime.step K s a = some s') :
    Refines K s' S ∨
      ∃ l, S.enabled l ∧ a.Tells s l ∧ Refines K s' (S.apply l) := by
  obtain ⟨loc', hobeyed', hmove⟩ := h.obeyed.step hs
  cases hmove with
  | start hop =>
      refine .inr ⟨.settle, h.settled hop, rfl, hobeyed', h.shows.withLocal, ?_, by simp, h.dropped⟩
      refine Eq.trans ?_ (ongoing_op (w := s.world)).symm
      have hnone : s.ongoing .client = none := by simp [ongoing, hop]
      rw [← h.running] at hnone ⊢
      exact (update_running hnone)
  | client hop hmove =>
      rename_i choice w' q' th th'
      have hrun : S.running .client = th.ongoing := by rw [h.running, ongoing, hop]; rfl
      have hupdate :
          ({ s with world := w', op := some th', exchanged := th.outcome.or s.exchanged } :
            ClientRuntime).ongoing = Function.update S.running .client th'.ongoing := by
        rw [h.running]
        exact ongoing_op (w := w')
      rcases hmove.tracks (fun _ => rfl) (fun hne => absurd rfl hne) (h.obeyed.client th hop).1
        h.shows hrun fun _ => rfl with ⟨hshows, hq, hnone', hnone⟩ | ⟨l, hl⟩
      · subst hq
        rw [Function.update_eq_self] at hobeyed'
        refine .inl ⟨hobeyed', hshows, ?_, by simp, h.dropped⟩
        rw [hupdate, hnone', ← update_running (hrun.trans hnone)]
      · refine .inr ⟨l, hl.enabled, ⟨th, hop, hl.tells⟩, ?_, hl.shows, ?_, by simp, ?_⟩
        · rwa [hl.loc]
        · rw [hupdate, hl.running]
        · rw [hl.dropped]
          exact h.dropped
  | finish hop hcall hends =>
      refine .inl ⟨hobeyed', h.shows, ?_, fun _ => hends, h.dropped⟩
      obtain rfl := (h.obeyed.client _ hop).1.running_eq_none_of_done
      have hnone : s.ongoing .client = none := by simp [ongoing, hop, Thread.ongoing]
      rw [h.running]
      refine Eq.trans ?_ (ongoing_op (w := s.world)).symm
      exact update_running (S := { S with running := s.ongoing }) hnone
  | cancel hop hbegun hwaits =>
      rename_i th
      have hrun : S.running .client = th.ongoing := by rw [h.running, ongoing, hop]; rfl
      obtain ⟨s₀, ts, a, k, -, hwait⟩ := hwaits
      have hsettled : Local.start.settled := ⟨rfl, by rintro ⟨⟩⟩
      refine .inr ⟨.drop .client, calm_of_waits true hwait, rfl, hobeyed',
        Thread.shows_drop h.shows hrun, ?_, fun _ => ?_, ?_⟩
      · refine Eq.trans ?_ (ongoing_op (w := th.drop .client s.world)).symm
        change Function.update S.running .client none = _
        rw [h.running]
        rfl
      · simpa [SharedStream.apply] using hsettled
      · simpa [SharedStream.apply] using h.dropped
  | ping halive hparked hmove =>
      rename_i t choice w' q' th'
      have hrun : S.running (.ping t) = (s.pings t).thread.ongoing := by
        rw [h.running, ongoing, if_neg (by simp [halive.2])]
      have hupdate : ({ s with world := w' }.setPing t { s.pings t with thread := th' }).ongoing =
          Function.update S.running (.ping t) th'.ongoing := by
        rw [ongoing_setPing, h.running, if_neg (by simp [halive.2])]
        rfl
      have hdropped : ∀ t', .ping t' ∈ S.dropped →
          (({ s with world := w' }.setPing t { s.pings t with thread := th' }).pings t').ended =
            true := by
        intro t' ht'
        by_cases heq : t' = t
        · subst heq
          exact absurd (h.pings_not_dropped halive ht') (by simp)
        · simpa [ClientRuntime.setPing, heq] using h.dropped t' ht'
      have hclient : (Agent.ping t) ≠ .client := by simp
      rcases hmove.tracks (show false = true → _ from (by simp)) (fun _ => rfl)
        (h.obeyed.ping t halive.2).1 h.shows hrun (h.pings_not_dropped halive) with
        ⟨hshows, hq, hnone', hnone⟩ | ⟨l, hl⟩
      · subst hq
        rw [Function.update_eq_self] at hobeyed'
        refine .inl ⟨hobeyed', hshows, ?_, h.settled, hdropped⟩
        rw [hupdate, hnone', ← update_running (hrun.trans hnone)]
      · refine .inr ⟨l, hl.enabled, hl.tells, ?_, hl.shows, ?_, fun hop => ?_, ?_⟩
        · rwa [hl.loc]
        · rw [hupdate, hl.running]
        · rw [hl.loc, Function.update_of_ne hclient.symm]
          exact h.settled hop
        · rw [hl.dropped]
          exact hdropped
  | park halive => exact .inl (h.setPing hobeyed' rfl id)
  | resume halive => exact .inl (h.setPing hobeyed' rfl id)
  | again halive htask =>
      refine .inl (h.setPing hobeyed' ?_ id)
      rw [h.ongoing_eq_none_of_done halive htask]
      exact if_neg (by simp [halive.2])
  | ended halive htask =>
      refine .inl (h.setPing hobeyed' ?_ fun _ => rfl)
      exact (h.ongoing_eq_none_of_done halive htask).symm
  | drop halive habort hbegun hwaits =>
      rename_i t
      have hrun : S.running (.ping t) = (s.pings t).thread.ongoing := by
        rw [h.running, ongoing, if_neg (by simp [halive.2])]
      obtain ⟨s₀, ts, a, k, -, hwait⟩ := hwaits
      refine .inr ⟨.drop (.ping t), calm_of_waits false hwait, ⟨habort, rfl⟩, hobeyed',
        Thread.shows_drop h.shows hrun, ?_, fun hop => ?_, fun t' ht' => ?_⟩
      · rw [ongoing_setPing, if_pos rfl]
        change Function.update S.running (.ping t) none = _
        rw [h.running]
        rfl
      · have hclient : Agent.client ≠ .ping t := by simp
        simpa [SharedStream.apply, Function.update_of_ne hclient] using h.settled hop
      · by_cases heq : t' = t
        · simp [ClientRuntime.setPing, heq]
        · have hmem : .ping t' ∈ S.dropped := by simpa [SharedStream.apply, heq] using ht'
          simpa [ClientRuntime.setPing, heq] using h.dropped t' hmem

/-- What the shared stream never does, under conditions on its steps, a client never does
under conditions that entail them. -/
theorem refines_of_reachable {ok : ClientRuntime → Act → Prop}
    (ok' : SharedStream → SharedStream.Label → Prop)
    (hok : ∀ s S a l, Refines K s S → ok s a → a.Tells s l → ok' S l)
    (h : (machine K).Reachable ok s) :
    ∃ S, SharedStream.machine.Reachable ok' S ∧ Refines K s S := by
  refine h.simulates (fun s S => Refines K s S) (fun s hs => refines_of_fresh hs) ?_
  intro s S a s' hR hok' hs
  rcases hR.step hs with hR' | ⟨l, hl, htells, hR'⟩
  · exact .inl hR'
  · exact .inr ⟨l, S.apply l, hok s S a l hR hok' htells,
      SharedStream.step_eq_some_iff.mpr ⟨hl, rfl⟩, hR'⟩

end

end ClientRuntime

end Wagonet
