import Mathlib
import Wagonet.ClientRuntime
import Wagonet.Library.Discipline

/-!
What a step of a client can do.

A regime is a discipline for the operations of the caller and one for ping tasks,
which their programs obey. Every step of a client is then one of `Moves`: it shows
what the thread has done, what its local state was and what it is now. Invariants
are proved from that, and the programs are not looked at again.
-/

namespace Wagonet

open Library

namespace ClientRuntime

/-- Rules that the operations of the caller and the ping tasks obey. -/
structure Regime (K : ClientKind) (Q : Type) where
  client : Discipline ClientAwaits ClientCalls Q ClientFields
  ping : Discipline ClientAwaits ClientCalls Q Unit
  /-- where an operation of the caller begins -/
  start : ClientFields → Q
  /-- where it may end -/
  ends : ClientOp → Q → ClientFields → Except Error (List UInt8) → Prop
  /-- where an iteration of a ping task begins and ends -/
  idle : Q
  program : ∀ (op : ClientOp) (fields : ClientFields),
    (op.program K fields).Obeys client (ends op) (start fields)
  iteration : (PingState.pingIteration ()).Obeys ping (fun q _ _ => q = idle) idle

/-- What a call changes, apart from the mutexes and the timeouts. -/
def World.after (w : World) (g : Agent) : ClientCall → World
  | .setStream none => { w with cell := none }
  | .setStream (some c) => { w with cell := some c, stored := some c }
  | .setShouldStop v => { w with shouldStop := v }
  | .loadConfig =>
      { w with sawEnabled := fun g' => if g' = g then w.config.enabled else w.sawEnabled g' }
  | .setConfig v => { w with config := v }
  | .takeHandle => { w with taskHandle := none }
  | .setHandle t => { w with taskHandle := some t }
  | .spawn => { w with homes := w.homes ++ [w.stored] }
  | .abort t => { w with aborted := if t < w.homes.length then t :: w.aborted else w.aborted }
  | _ => w

/-- Whatever depends neither on the mutexes nor on the timeouts is changed by a call as
`after` says. -/
theorem World.call_frame {β : Type} {f : World → β} {w w' : World} {g : Agent} {c : ClientCall}
    {r : c.Reply} {choice : Choice} (hholder : ∀ w v, f { w with holder := v } = f w)
    (htimeout : ∀ w v, f { w with timeoutConfig := v } = f w)
    (h : w.call g c choice = some (r, w')) : f w' = f (w.after g c) := by
  cases c with
  | tryLock m =>
      cases choice <;> simp only [World.call, reduceCtorEq] at h
      split at h <;> cases h
      · exact hholder w _
      · rfl
  | unlock m =>
      cases choice <;> simp only [World.call, reduceCtorEq] at h
      cases h
      exact hholder w _
  | setTimeoutConfig v =>
      cases choice <;> simp only [World.call, reduceCtorEq] at h
      cases h
      exact htimeout w v
  | setStream v =>
      cases v <;> cases choice <;> simp only [World.call, reduceCtorEq] at h <;> cases h <;> rfl
  | abort t =>
      cases choice <;> simp only [World.call, reduceCtorEq] at h
      cases h
      simp only [World.after]
      split <;> rfl
  | _ => cases choice <;> simp only [World.call, reduceCtorEq] at h <;> cases h <;> rfl

/-- What is awaited changes no more than the mutexes and the number of connections. -/
theorem World.wait_frame {β : Type} {f : World → β} {w w' : World} {g : Agent} {a : ClientAwait}
    {r : a.Reply} {choice : Choice} (hholder : ∀ w v, f { w with holder := v } = f w)
    (hconnections : ∀ w n, f { w with connections := n } = f w)
    (h : w.wait g a choice = some (r, w')) : f w' = f w := by
  cases a with
  | lock m =>
      cases choice <;> simp only [World.wait, reduceCtorEq] at h
      split at h <;> cases h
      exact hholder w _
  | tcpConnect =>
      cases choice <;> simp only [World.wait, reduceCtorEq] at h <;> cases h
      · exact hconnections w _
      · rfl
  | _ => cases choice <;> simp only [World.wait, reduceCtorEq] at h <;> cases h <;> rfl

/-- No call leaves anything on a wire. -/
theorem World.call_log {w w' : World} {g : Agent} {c : ClientCall} {r : c.Reply}
    {choice : Choice} (h : w.call g c choice = some (r, w')) :
    w'.wire = w.wire ∧ w'.record = w.record := by
  have hafter : ((w.after g c).wire, (w.after g c).record) = (w.wire, w.record) := by
    cases c with
    | setStream v => cases v <;> rfl
    | _ => rfl
  exact Prod.mk.inj ((World.call_frame (f := fun w => (w.wire, w.record)) (fun _ _ => rfl)
    (fun _ _ => rfl) h).trans hafter)

theorem World.wait_log {w w' : World} {g : Agent} {a : ClientAwait} {r : a.Reply}
    {choice : Choice} (h : w.wait g a choice = some (r, w')) :
    w'.wire = w.wire ∧ w'.record = w.record :=
  Prod.mk.inj (World.wait_frame (f := fun w => (w.wire, w.record)) (fun _ _ => rfl)
    (fun _ _ => rfl) h)

/-- Only one call changes the cell. -/
theorem World.call_cell {w w' : World} {g : Agent} {c : ClientCall} {r : c.Reply}
    {choice : Choice} (h : w.call g c choice = some (r, w')) :
    w'.cell = match c with
      | .setStream v => v
      | _ => w.cell := by
  rw [World.call_frame (f := World.cell) (fun _ _ => rfl) (fun _ _ => rfl) h]
  cases c with
  | setStream v => cases v <;> rfl
  | _ => rfl

theorem World.wait_cell {w w' : World} {g : Agent} {a : ClientAwait} {r : a.Reply}
    {choice : Choice} (h : w.wait g a choice = some (r, w')) : w'.cell = w.cell :=
  World.wait_frame (f := World.cell) (fun _ _ => rfl) (fun _ _ => rfl) h

namespace Thread

variable {σ α Q : Type}

/-- What a thread does in one step. -/
inductive Moves (D : Discipline ClientAwaits ClientCalls Q σ) (K : ClientKind) (g : Agent) :
    World → Thread σ α → Q → Choice → World → Thread σ α → Q → Prop
  | call {w w' : World} {q : Q} {choice : Choice} {s : σ} {c : ClientCall} {r : c.Reply}
      {k : c.Reply → Task ClientIO σ α} {run : Option Running} :
      D.calls q c → w.call g c choice = some (r, w') →
        Moves D K g w ⟨.await s (.call c) k, run⟩ q choice w' ⟨k r, none⟩ (D.called q c r)
  | wait {w w' : World} {q : Q} {choice : Choice} {s : σ} {ts : List Timer} {a : ClientAwait}
      {r : a.Reply} {k : Fin ts.length ⊕ a.Reply → Task ClientIO σ α} {run : Option Running} :
      a.isExchange = false → D.waits q s a → w.wait g a choice = some (r, w') →
        Moves D K g w ⟨.await s (.wait ts a) k, run⟩ q choice w' ⟨k (.inr r), none⟩
          (D.waited q a r)
  | elapse {w : World} {q : Q} {s : σ} {ts : List Timer} {a : ClientAwait} {i : Fin ts.length}
      {k : Fin ts.length ⊕ a.Reply → Task ClientIO σ α} {run : Option Running} :
      a.isExchange = false → D.waits q s a → D.timed q s →
        Moves D K g w ⟨.await s (.wait ts a) k, run⟩ q (.elapse i) w ⟨k (.inl i), none⟩
          (D.lapsed q)
  | begins {w : World} {q : Q} {choice : Choice} {s : σ} {ts : List Timer} {c : Conn}
      {x : Exchange} {buffer : ByteVec}
      {k : Fin ts.length ⊕ (ClientAwait.exchange c x buffer).Reply → Task ClientIO σ α} :
      D.waits q s (.exchange c x buffer) →
        Moves D K g w ⟨.await s (.wait ts (.exchange c x buffer)) k, none⟩ q choice w
          ⟨.await s (.wait ts (.exchange c x buffer)) k,
            some ⟨⟨c, x, []⟩, K.program x buffer⟩⟩ q
  | event {w : World} {q : Q} {choice : Choice} {t : Task ClientIO σ α} {x : Ongoing}
      {s : ByteVec} {o : (Net Interface.empty).Op} {r : (Net Interface.empty).Reply o}
      {k : (Net Interface.empty).Reply o →
        Task (Net Interface.empty) ByteVec (Except Error (List UInt8))} :
      Running.answer o choice = some r →
        Moves D K g w ⟨t, some ⟨x, .await s o k⟩⟩ q choice (w.addWire x.conn (g, ⟨o, r⟩))
          ⟨t, some ⟨x.add ⟨o, r⟩, k r⟩⟩ q
  | ends {w : World} {q : Q} {choice : Choice} {s : σ} {ts : List Timer} {c : Conn}
      {x : Exchange} {buffer buffer' : ByteVec} {y : Ongoing}
      {k : Fin ts.length ⊕ (ClientAwait.exchange c x buffer).Reply → Task ClientIO σ α}
      {r : Except Error (List UInt8)} :
      Moves D K g w ⟨.await s (.wait ts (.exchange c x buffer)) k, some ⟨y, .done buffer' r⟩⟩ q
        choice (w.addRecord y.conn (y.ended g (.returned r))) ⟨k (.inr (buffer', r)), none⟩
        (D.waited q (.exchange c x buffer) (buffer', r))

theorem step_wait {K : ClientKind} {g : Agent} {w : World} {s : σ} {ts : List Timer}
    {a : ClientAwait} {k : Fin ts.length ⊕ a.Reply → Task ClientIO σ α} {run : Option Running}
    {choice : Choice} (ha : a.isExchange = false) :
    (⟨.await s (.wait ts a) k, run⟩ : Thread σ α).step K g w choice =
      match choice with
      | .elapse i => if h : i < ts.length then some (w, ⟨k (.inl ⟨i, h⟩), none⟩) else none
      | choice => (w.wait g a choice).map fun (r, w') => (w', ⟨k (.inr r), none⟩) := by
  cases a <;> first | rfl | cases ha

/-- A thread that obeys its rules makes one of these moves, and goes on obeying them. -/
theorem Moves.of_step {D : Discipline ClientAwaits ClientCalls Q σ} {K : ClientKind} {g : Agent}
    {w w' : World} {th th' : Thread σ α} {q : Q} {choice : Choice} {final : Q → σ → α → Prop}
    (h : th.task.Obeys D final q) (hs : th.step K g w choice = some (w', th')) :
    ∃ q', th'.task.Obeys D final q' ∧ Moves D K g w th q choice w' th' q' := by
  obtain ⟨task, run⟩ := th
  cases task with
  | done s a => simp [Thread.step] at hs
  | await s o k =>
      cases o with
      | call c =>
          simp only [Thread.step, Option.map_eq_some_iff, Prod.exists, Prod.mk.injEq] at hs
          obtain ⟨r, w₁, hcall, rfl, rfl⟩ := hs
          exact ⟨_, h.2 r, .call h.1 hcall⟩
      | wait ts a =>
          obtain ⟨ha, ht, hi, hr⟩ := h
          cases hex : a.isExchange with
          | false =>
              rw [step_wait hex] at hs
              cases choice with
              | elapse i =>
                  simp only [Option.dite_none_right_eq_some, Option.some.injEq, Prod.mk.injEq]
                    at hs
                  obtain ⟨hlt, rfl, rfl⟩ := hs
                  have htimed : D.timed q s := ht (by rintro rfl; cases hlt)
                  exact ⟨_, hi ⟨i, hlt⟩, .elapse (i := ⟨i, hlt⟩) hex ha htimed⟩
              | _ =>
                  simp only [Option.map_eq_some_iff, Prod.exists, Prod.mk.injEq] at hs
                  obtain ⟨r, w₁, hwait, rfl, rfl⟩ := hs
                  exact ⟨_, hr r, .wait hex ha hwait⟩
          | true =>
              cases a with
              | exchange c x buffer =>
                  match run with
                  | none =>
                      simp only [Thread.step, Option.some.injEq, Prod.mk.injEq] at hs
                      obtain ⟨rfl, rfl⟩ := hs
                      exact ⟨q, ⟨ha, ht, hi, hr⟩, .begins ha⟩
                  | some ⟨y, .done buffer' r⟩ =>
                      simp only [Thread.step, Option.some.injEq, Prod.mk.injEq] at hs
                      obtain ⟨rfl, rfl⟩ := hs
                      exact ⟨_, hr _, .ends⟩
                  | some ⟨y, .await s' o k'⟩ =>
                      simp only [Thread.step, Option.map_eq_some_iff, Prod.mk.injEq] at hs
                      obtain ⟨r, hanswer, rfl, rfl⟩ := hs
                      exact ⟨q, ⟨ha, ht, hi, hr⟩, .event hanswer⟩
              | _ => cases hex

/-- An exchange belongs to the operation the program waits for, and is a beginning of
its own program. -/
def Begun (K : ClientKind) (th : Thread σ α) : Prop :=
  ∀ run, th.running = some run → ∃ s ts buffer k,
    th.task = .await s (.wait ts (.exchange run.conn run.exchange buffer)) k ∧
      (K.program run.exchange buffer).Partial run.events run.task

theorem Begun.of_none {K : ClientKind} {t : Task ClientIO σ α} : Begun K ⟨t, none⟩ := nofun

theorem Begun.move {D : Discipline ClientAwaits ClientCalls Q σ} {K : ClientKind} {g : Agent}
    {w w' : World} {th th' : Thread σ α} {q q' : Q} {choice : Choice} (h : th.Begun K)
    (hm : Moves D K g w th q choice w' th' q') : th'.Begun K := by
  cases hm with
  | call => exact .of_none
  | wait => exact .of_none
  | elapse => exact .of_none
  | begins =>
      rintro run ⟨⟩
      exact ⟨_, _, _, _, rfl, .refl⟩
  | event hanswer =>
      obtain ⟨s, ts, buffer, k, htask, hpartial⟩ := h _ rfl
      rintro run ⟨⟩
      exact ⟨s, ts, buffer, k, htask, .step _ hpartial⟩
  | ends => exact .of_none

/-- The thread is at an operation that its rules allow. -/
def Waits (D : Discipline ClientAwaits ClientCalls Q σ) (th : Thread σ α) (q : Q) : Prop :=
  ∃ s ts a k, th.task = .await s (.wait ts a) k ∧ D.waits q s a

theorem waits_of_suspended {D : Discipline ClientAwaits ClientCalls Q σ} {K : ClientKind}
    {th : Thread σ α} {q : Q} {final : Q → σ → α → Prop} (h : th.task.Obeys D final q)
    (hbegun : th.Begun K) (hs : th.suspended = true) : th.Waits D q := by
  obtain ⟨task, running⟩ := th
  cases running with
  | some run =>
      obtain ⟨s, ts, buffer, k, htask, -⟩ := hbegun run rfl
      dsimp only at htask
      subst htask
      exact ⟨_, _, _, _, rfl, h.1⟩
  | none =>
      cases task with
      | done s a => simp [suspended] at hs
      | await s o k =>
          cases o with
          | call c => simp [suspended] at hs
          | wait ts a => exact ⟨_, _, _, _, rfl, h.1⟩

end Thread

namespace Regime

variable {K : ClientKind} {Q : Type} {R : Regime K Q} {s s' : ClientRuntime} {loc : Agent → Q}
  {a : Act}

/-- All threads obey their rules in these local states. -/
structure Obeyed (R : Regime K Q) (s : ClientRuntime) (loc : Agent → Q) : Prop where
  client : ∀ th, s.op = some th → th.Begun K ∧
    ∃ op, s.call = some op ∧ th.task.Obeys R.client (R.ends op) (loc .client)
  ping : ∀ t, (s.pings t).ended = false → (s.pings t).thread.Begun K ∧
    (s.pings t).thread.task.Obeys R.ping (fun q _ _ => q = R.idle) (loc (.ping t))
  ended : ∀ t, (s.pings t).ended = true → loc (.ping t) = R.idle
  parked : ∀ t, (s.pings t).parked = true → (s.pings t).thread.suspended = true

/-- What happens in one step, with the local states before and after it. -/
inductive Moves (R : Regime K Q) :
    ClientRuntime → (Agent → Q) → Act → ClientRuntime → (Agent → Q) → Prop
  | start {s : ClientRuntime} {loc : Agent → Q} {op : ClientOp} :
      s.op = none →
        Moves R s loc (.start op)
          { s with
            op := some ⟨op.program K s.fields, none⟩
            call := some op
            exchanged := none
            result := none }
          (Function.update loc .client (R.start s.fields))
  | client {s : ClientRuntime} {loc : Agent → Q} {choice : Choice} {w' : World} {q' : Q}
      {th th' : Thread ClientFields (Except Error (List UInt8))} :
      s.op = some th → th.Moves R.client K .client s.world (loc .client) choice w' th' q' →
        Moves R s loc (.client choice)
          { s with world := w', op := some th', exchanged := th.outcome.or s.exchanged }
          (Function.update loc .client q')
  | finish {s : ClientRuntime} {loc : Agent → Q} {op : ClientOp} {fields : ClientFields}
      {r : Except Error (List UInt8)} {running : Option Running} :
      s.op = some ⟨.done fields r, running⟩ → s.call = some op →
        R.ends op (loc .client) fields r →
          Moves R s loc .finish { s with fields := fields, op := none, result := some r } loc
  | cancel {s : ClientRuntime} {loc : Agent → Q}
      {th : Thread ClientFields (Except Error (List UInt8))} :
      s.op = some th → th.Begun K → th.Waits R.client (loc .client) →
        Moves R s loc .cancel
          { s with world := th.drop .client s.world, fields := fieldsLeft th, op := none }
          (Function.update loc .client R.idle)
  | ping {s : ClientRuntime} {loc : Agent → Q} {t : Nat} {choice : Choice} {w' : World} {q' : Q}
      {th' : Thread Unit (Except Error Bool)} :
      s.alive t → (s.pings t).parked = false →
        (s.pings t).thread.Moves R.ping K (.ping t) s.world (loc (.ping t)) choice w' th' q' →
          Moves R s loc (.ping t choice)
            ({ s with world := w' }.setPing t { s.pings t with thread := th' })
            (Function.update loc (.ping t) q')
  | park {s : ClientRuntime} {loc : Agent → Q} {t : Nat} :
      s.alive t → Moves R s loc (.park t) (s.setPing t { s.pings t with parked := true }) loc
  | resume {s : ClientRuntime} {loc : Agent → Q} {t : Nat} :
      s.alive t → (s.pings t).parked = true → t ∉ s.world.aborted →
        Moves R s loc (.resume t) (s.setPing t { s.pings t with parked := false }) loc
  | again {s : ClientRuntime} {loc : Agent → Q} {t : Nat} :
      s.alive t → (s.pings t).thread.task = .done () (.ok true) → loc (.ping t) = R.idle →
        Moves R s loc (.turn t)
          (s.setPing t { s.pings t with thread := ⟨PingState.pingIteration (), none⟩ }) loc
  | ended {s : ClientRuntime} {loc : Agent → Q} {t : Nat} {r : Except Error Bool} :
      s.alive t → (s.pings t).thread.task = .done () r → r ≠ .ok true →
        loc (.ping t) = R.idle →
          Moves R s loc (.turn t) (s.setPing t { s.pings t with ended := true }) loc
  | drop {s : ClientRuntime} {loc : Agent → Q} {t : Nat} :
      s.alive t → t ∈ s.world.aborted → (s.pings t).thread.Begun K →
        (s.pings t).thread.Waits R.ping (loc (.ping t)) →
          Moves R s loc (.drop t)
            ({ s with world := (s.pings t).thread.drop (.ping t) s.world }.setPing t
              { s.pings t with ended := true })
            (Function.update loc (.ping t) R.idle)

theorem obeyed_of_fresh (R : Regime K Q) (h : Fresh s) : R.Obeyed s fun _ => R.idle := by
  constructor
  · simp [h.op]
  · intro t _
    rw [h.pings t]
    exact ⟨.of_none, R.iteration⟩
  · exact fun _ _ => rfl
  · intro t _
    rw [h.pings t]
    rfl

theorem Obeyed.setPing {t : Nat} {p : PingTask} {q : Q} (h : R.Obeyed s loc)
    (hlive : p.ended = false → p.thread.Begun K ∧
      p.thread.task.Obeys R.ping (fun q _ _ => q = R.idle) q)
    (hended : p.ended = true → q = R.idle)
    (hparked : p.parked = true → p.thread.suspended = true) :
    R.Obeyed (s.setPing t p) (Function.update loc (.ping t) q) := by
  refine ⟨?_, fun t' ht' => ?_, fun t' ht' => ?_, fun t' ht' => ?_⟩
  · simpa [ClientRuntime.setPing] using h.client
  all_goals
    by_cases heq : t' = t
    · subst heq
      simp only [ClientRuntime.setPing, if_true, Function.update_self] at ht' ⊢
      first | exact hlive ht' | exact hended ht' | exact hparked ht'
    · have hne : Agent.ping t' ≠ .ping t := by simpa using heq
      simp only [ClientRuntime.setPing, heq, if_false, Function.update_of_ne hne] at ht' ⊢
      first | exact h.ping t' ht' | exact h.ended t' ht' | exact h.parked t' ht'

/-- A ping task that is only parked or polled again. -/
theorem Obeyed.setPing_same {t : Nat} {p : PingTask} (h : R.Obeyed s loc)
    (hlive : p.ended = false → p.thread.Begun K ∧
      p.thread.task.Obeys R.ping (fun q _ _ => q = R.idle) (loc (.ping t)))
    (hended : p.ended = true → loc (.ping t) = R.idle)
    (hparked : p.parked = true → p.thread.suspended = true) :
    R.Obeyed (s.setPing t p) loc := by
  have hset := h.setPing (t := t) hlive hended hparked
  rwa [Function.update_eq_self] at hset

theorem Obeyed.step (h : R.Obeyed s loc) (hs : ClientRuntime.step K s a = some s') :
    ∃ loc', R.Obeyed s' loc' ∧ R.Moves s loc a s' loc' := by
  cases a with
  | start op =>
      simp only [ClientRuntime.step] at hs
      split at hs
      · rename_i hop
        cases hs
        refine ⟨_, ⟨?_, ?_, ?_, h.parked⟩, .start hop⟩
        · rintro th ⟨⟩
          exact ⟨.of_none, op, rfl, by simpa using R.program op s.fields⟩
        · simpa using h.ping
        · simpa using h.ended
      · cases hs
  | client choice =>
      simp only [ClientRuntime.step] at hs
      split at hs
      · rename_i th hop
        simp only [Option.map_eq_some_iff, Prod.exists] at hs
        obtain ⟨w', th', hstep, rfl⟩ := hs
        obtain ⟨hbegun, op, hcall, hobeys⟩ := h.client th hop
        obtain ⟨q', hobeys', hmove⟩ := Thread.Moves.of_step hobeys hstep
        refine ⟨_, ⟨?_, ?_, ?_, h.parked⟩, .client hop hmove⟩
        · rintro th ⟨⟩
          exact ⟨hbegun.move hmove, op, hcall, by simpa using hobeys'⟩
        · simpa using h.ping
        · simpa using h.ended
      · cases hs
  | finish =>
      simp only [ClientRuntime.step] at hs
      split at hs
      · rename_i fields r running hop
        cases hs
        obtain ⟨-, op, hcall, hends⟩ := h.client _ hop
        exact ⟨_, ⟨by simp, h.ping, h.ended, h.parked⟩, .finish hop hcall hends⟩
      · cases hs
  | cancel =>
      simp only [ClientRuntime.step] at hs
      split at hs
      · rename_i th hop
        split at hs
        · rename_i hsuspended
          cases hs
          obtain ⟨hbegun, op, hcall, hobeys⟩ := h.client th hop
          refine ⟨_, ⟨by simp, ?_, ?_, h.parked⟩,
            .cancel hop hbegun (Thread.waits_of_suspended hobeys hbegun hsuspended)⟩
          · simpa using h.ping
          · simpa using h.ended
        · cases hs
      · cases hs
  | ping t choice =>
      simp only [ClientRuntime.step] at hs
      split at hs
      · rename_i ht
        obtain ⟨halive, hparked⟩ := ht
        simp only [Option.map_eq_some_iff, Prod.exists] at hs
        obtain ⟨w', th', hstep, rfl⟩ := hs
        obtain ⟨hbegun, hobeys⟩ := h.ping t halive.2
        obtain ⟨q', hobeys', hmove⟩ := Thread.Moves.of_step hobeys hstep
        have hworld : R.Obeyed { s with world := w' } loc :=
          ⟨h.client, h.ping, h.ended, h.parked⟩
        refine ⟨_, hworld.setPing (fun _ => ⟨hbegun.move hmove, hobeys'⟩) (fun hend => ?_)
          (fun hpark => ?_), .ping halive hparked hmove⟩
        · exact absurd (halive.2.symm.trans hend) nofun
        · exact absurd (hparked.symm.trans hpark) nofun
      · cases hs
  | park t =>
      simp only [ClientRuntime.step] at hs
      split at hs
      · rename_i ht
        cases hs
        obtain ⟨halive, -, hsuspended⟩ := ht
        exact ⟨loc, h.setPing_same (h.ping t) (h.ended t) fun _ => hsuspended, .park halive⟩
      · cases hs
  | resume t =>
      simp only [ClientRuntime.step] at hs
      split at hs
      · rename_i ht
        cases hs
        obtain ⟨halive, hparked, habort⟩ := ht
        exact ⟨loc, h.setPing_same (h.ping t) (h.ended t) nofun, .resume halive hparked habort⟩
      · cases hs
  | turn t =>
      simp only [ClientRuntime.step] at hs
      split at hs
      · rename_i ht
        obtain ⟨halive, hparked⟩ := ht
        obtain ⟨-, hobeys⟩ := h.ping t halive.2
        split at hs
        · rename_i u htask
          cases hs
          rw [htask] at hobeys
          have hidle : loc (.ping t) = R.idle := hobeys
          refine ⟨loc, h.setPing_same (fun _ => ⟨.of_none, hidle ▸ R.iteration⟩) ?_ ?_,
            .again halive htask hidle⟩
          · exact fun hend => absurd (halive.2.symm.trans hend) nofun
          · exact fun hpark => absurd (hparked.symm.trans hpark) nofun
        · rename_i u r hr htask
          cases hs
          rw [htask] at hobeys
          have hidle : loc (.ping t) = R.idle := hobeys
          refine ⟨loc, h.setPing_same nofun (fun _ => hidle) ?_, .ended halive htask ?_ hidle⟩
          · exact fun hpark => absurd (hparked.symm.trans hpark) nofun
          · exact hr
        · cases hs
      · cases hs
  | drop t =>
      simp only [ClientRuntime.step] at hs
      split at hs
      · rename_i ht
        cases hs
        obtain ⟨halive, hparked, habort⟩ := ht
        obtain ⟨hbegun, hobeys⟩ := h.ping t halive.2
        have hwaits := Thread.waits_of_suspended hobeys hbegun (h.parked t hparked)
        have hworld : R.Obeyed { s with world := (s.pings t).thread.drop (.ping t) s.world } loc :=
          ⟨h.client, h.ping, h.ended, h.parked⟩
        exact ⟨_, hworld.setPing nofun (fun _ => rfl) fun _ => h.parked t hparked,
          .drop halive habort hbegun hwaits⟩
      · cases hs

/-- The induction over a run: what holds at the start and is preserved by every move
holds in every state that is reached, with some local states of the threads. -/
theorem invariant (R : Regime K Q) {ok : ClientRuntime → Act → Prop}
    (I : ClientRuntime → (Agent → Q) → Prop) (hinit : ∀ s, Fresh s → I s fun _ => R.idle)
    (hstep : ∀ s loc a s' loc', R.Obeyed s loc → I s loc → ok s a → R.Moves s loc a s' loc' →
      I s' loc') (h : (machine K).Reachable ok s) : ∃ loc, R.Obeyed s loc ∧ I s loc := by
  refine h.invariant (fun s => ∃ loc, R.Obeyed s loc ∧ I s loc)
    (fun s hs => ⟨_, obeyed_of_fresh R hs, hinit s hs⟩) ?_
  rintro s a s' ⟨loc, hobeyed, hI⟩ hok hs
  obtain ⟨loc', hobeyed', hmove⟩ := hobeyed.step hs
  exact ⟨loc', hobeyed', hstep s loc a s' loc' hobeyed hI hok hmove⟩

/-- The induction over a run that begins anywhere. -/
theorem Obeyed.along {ok : ClientRuntime → Act → Prop} {as : List Act}
    (I : ClientRuntime → (Agent → Q) → Prop)
    (hstep : ∀ s loc a s' loc', R.Obeyed s loc → I s loc → ok s a → R.Moves s loc a s' loc' →
      I s' loc') (h : R.Obeyed s loc) (hI : I s loc) (hok : (machine K).Along ok s as)
    (hr : (machine K).run s as = some s') : ∃ loc', R.Obeyed s' loc' ∧ I s' loc' := by
  induction as generalizing s loc with
  | nil =>
      cases hr
      exact ⟨loc, h, hI⟩
  | cons a as ih =>
      rw [Machine.run_cons, Option.bind_eq_some_iff] at hr
      obtain ⟨t, ht, hr⟩ := hr
      obtain ⟨loc', h', hmove⟩ := h.step ht
      exact ih h' (hstep s loc a t loc' h hI hok.1 hmove) (hok.2 t ht) hr

end Regime

end ClientRuntime

end Wagonet
