import Wagonet.PingControl

/-!
Who has locked the stream and `task_handle`.

The local states of the threads say it: a mutex is held by a thread just if the
thread knows that. So whoever has locked the stream is alone with the cell, and
`try_lock` on `task_handle` does not fail between the other statements of an operation.
-/

namespace Wagonet

open Library

namespace ClientRuntime

variable {K : ClientKind} {w w' : World} {loc : Agent → Control} {g : Agent} {choice : Choice}

/-- The mutex is held by a thread just if its local state says so. -/
def Owned (w : World) (m : Mutex) (has : Control → Bool) (loc : Agent → Control) : Prop :=
  ∀ g, w.holder m = some g ↔ has (loc g) = true

/-- A thread leaves a mutex as it is, or locks it, or unlocks it. -/
def Passes (g : Agent) (before after : Option Agent) (b b' : Bool) : Prop :=
  (after = before ∧ b' = b) ∨ (before = none ∧ after = some g ∧ b' = true) ∨
    (before = some g ∧ after = none ∧ b' = false)

theorem Owned.update {m : Mutex} {has : Control → Bool} {q : Control} (h : Owned w m has loc)
    (hm : Passes g (w.holder m) (w'.holder m) (has (loc g)) (has q)) :
    Owned w' m has (Function.update loc g q) := by
  intro g'
  by_cases heq : g' = g
  · subst heq
    rw [Function.update_self]
    rcases hm with ⟨hw, hq⟩ | ⟨-, hw, hq⟩ | ⟨-, hw, hq⟩
    · rw [hw, hq]
      exact h g'
    · simp [hw, hq]
    · simp [hw, hq]
  · rw [Function.update_of_ne heq, ← h g']
    rcases hm with ⟨hw, -⟩ | ⟨hw, hw', -⟩ | ⟨hw, hw', -⟩
    · rw [hw]
    · simp [hw, hw', Ne.symm heq]
    · simp [hw, hw', Ne.symm heq]

/-- The mutexes that matter for the ping tasks are held by those who know it. -/
structure Locked (s : ClientRuntime) (loc : Agent → Control) : Prop where
  stream : Owned s.world .stream Control.hasStream loc
  handle : Owned s.world .taskHandle Control.hasHandle loc
  idle : s.op = none → (loc .client).hasStream = false ∧ (loc .client).hasHandle = false
  pings : ∀ t, (loc (.ping t)).hasHandle = false

/-- Both mutexes are passed on as the local state says. -/
def PassesBoth (g : Agent) (w w' : World) (q q' : Control) : Prop :=
  Passes g (w.holder .stream) (w'.holder .stream) q.hasStream q'.hasStream ∧
    Passes g (w.holder .taskHandle) (w'.holder .taskHandle) q.hasHandle q'.hasHandle

theorem PassesBoth.of_same {q q' : Control} (hw : w'.holder = w.holder)
    (hstream : q'.hasStream = q.hasStream) (hhandle : q'.hasHandle = q.hasHandle) :
    PassesBoth g w w' q q' :=
  ⟨.inl ⟨congrFun hw _, hstream⟩, .inl ⟨congrFun hw _, hhandle⟩⟩

/-- A mutex that is neither of the two changes hands. -/
theorem PassesBoth.of_other {q : Control} {m : Mutex} {v : Option Agent}
    (hstream : m ≠ .stream) (hhandle : m ≠ .taskHandle) :
    PassesBoth g w (w.setHolder m v) q q :=
  ⟨.inl ⟨if_neg hstream.symm, rfl⟩, .inl ⟨if_neg hhandle.symm, rfl⟩⟩

theorem passes_of_calls {c : ClientCall} {r : c.Reply} {s : ClientRuntime}
    (h : Locked s loc) (hc : Control.discipline.calls (loc .client) c)
    (hcall : s.world.call .client c choice = some (r, w')) :
    PassesBoth .client s.world w' (loc .client)
      (Control.discipline.called (loc .client) c r) := by
  cases c with
  | tryLock m =>
      cases choice <;> simp only [World.call, reduceCtorEq] at hcall
      rcases hc with rfl | ⟨rfl, hfree⟩
      · split at hcall <;> cases hcall
        · exact .of_other (by simp) (by simp)
        · exact .of_same rfl rfl rfl
      · split at hcall <;> cases hcall
        · rename_i hnone
          exact ⟨.inl ⟨rfl, rfl⟩, .inr (.inl ⟨hnone, rfl, rfl⟩)⟩
        · exact .of_same rfl rfl rfl
  | unlock m =>
      cases choice <;> simp only [World.call, reduceCtorEq] at hcall
      cases hcall
      cases m with
      | stream => exact ⟨.inr (.inr ⟨(h.stream .client).mpr hc, rfl, rfl⟩), .inl ⟨rfl, rfl⟩⟩
      | taskHandle =>
          exact ⟨.inl ⟨rfl, rfl⟩, .inr (.inr ⟨(h.handle .client).mpr hc.1, rfl, rfl⟩)⟩
      | _ => exact .of_other (by simp) (by simp)
  | setStream v =>
      cases v <;> cases choice <;> simp only [World.call, reduceCtorEq] at hcall <;>
        cases hcall <;> exact .of_same rfl rfl rfl
  | setShouldStop v =>
      cases v <;> cases choice <;> simp only [World.call, reduceCtorEq] at hcall <;>
        cases hcall <;> exact .of_same rfl rfl rfl
  | abort t =>
      cases choice <;> simp only [World.call, reduceCtorEq] at hcall
      cases hcall
      refine .of_same ?_ rfl rfl
      split <;> rfl
  | _ =>
      cases choice <;> simp only [World.call, reduceCtorEq] at hcall <;> cases hcall <;>
        exact .of_same rfl rfl rfl

theorem passes_of_waits {a : ClientAwait} {r : a.Reply} {q : Control}
    (ha : a.isExchange = false) (hwait : w.wait g a choice = some (r, w')) :
    PassesBoth g w w' q (Control.discipline.waited q a r) := by
  cases a with
  | lock m =>
      cases choice <;> simp only [World.wait, reduceCtorEq] at hwait
      split at hwait <;> cases hwait
      rename_i hnone
      cases m with
      | stream => exact ⟨.inr (.inl ⟨hnone, rfl, rfl⟩), .inl ⟨rfl, rfl⟩⟩
      | taskHandle => exact ⟨.inl ⟨rfl, rfl⟩, .inr (.inl ⟨hnone, rfl, rfl⟩)⟩
      | _ => exact .of_other (by simp) (by simp)
  | exchange c x buffer => cases ha
  | _ =>
      cases choice <;> simp only [World.wait, reduceCtorEq] at hwait <;> cases hwait <;>
        exact .of_same rfl rfl rfl

theorem passes_of_pingCalls {c : ClientCall} {r : c.Reply} {s : ClientRuntime}
    (h : Locked s loc) (hc : Control.pingDiscipline.calls (loc g) c)
    (hcall : s.world.call g c choice = some (r, w')) :
    PassesBoth g s.world w' (loc g) (Control.pingDiscipline.called (loc g) c r) := by
  cases c with
  | tryLock m =>
      cases choice <;> simp only [World.call, reduceCtorEq] at hcall
      have hm : m = .inFlight := hc
      subst hm
      split at hcall <;> cases hcall
      · exact .of_other (by simp) (by simp)
      · exact .of_same rfl rfl rfl
  | unlock m =>
      cases choice <;> simp only [World.call, reduceCtorEq] at hcall
      cases hcall
      cases m with
      | stream => exact ⟨.inr (.inr ⟨(h.stream g).mpr (hc.2 rfl), rfl, rfl⟩), .inl ⟨rfl, rfl⟩⟩
      | taskHandle => exact absurd rfl hc.1
      | _ => exact .of_other (by simp) (by simp)
  | setStream v =>
      cases v <;> cases choice <;> simp only [World.call, reduceCtorEq] at hcall <;>
        cases hcall <;> exact .of_same rfl rfl rfl
  | abort t => exact hc.elim
  | _ =>
      cases choice <;> simp only [World.call, reduceCtorEq] at hcall <;> cases hcall <;>
        exact .of_same rfl rfl rfl

/-- A ping task locks the mutexes as the caller does. -/
theorem passes_of_pingWaits {a : ClientAwait} {r : a.Reply} {q : Control}
    (ha : a ≠ .lock .taskHandle) (hex : a.isExchange = false)
    (hwait : w.wait g a choice = some (r, w')) :
    PassesBoth g w w' q (Control.pingDiscipline.waited q a r) := by
  have hsame : Control.pingDiscipline.waited q a r = Control.discipline.waited q a r := by
    cases a with
    | lock m =>
        cases m with
        | taskHandle => exact absurd rfl ha
        | _ => rfl
    | exchange c x buffer => cases hex
    | _ => rfl
  rw [hsame]
  exact passes_of_waits hex hwait

/-- A move of the caller's operation. -/
theorem passes_of_clientMoves {α : Type} {th th' : Thread ClientFields α} {q' : Control}
    {s : ClientRuntime} (h : Locked s loc)
    (hm : th.Moves Control.discipline K .client s.world (loc .client) choice w' th' q') :
    PassesBoth .client s.world w' (loc .client) q' := by
  cases hm with
  | call hc hcall => exact passes_of_calls h hc hcall
  | wait hex _ hwait => exact passes_of_waits hex hwait
  | elapse => exact .of_same rfl rfl rfl
  | begins => exact .of_same rfl rfl rfl
  | event => exact .of_same rfl rfl rfl
  | ends =>
      rename_i r
      cases r <;> exact .of_same rfl rfl rfl

/-- A move of a ping task. -/
theorem passes_of_pingMoves {α : Type} {th th' : Thread Unit α} {q' : Control}
    {s : ClientRuntime} (h : Locked s loc)
    (hm : th.Moves Control.pingDiscipline K g s.world (loc g) choice w' th' q') :
    PassesBoth g s.world w' (loc g) q' := by
  cases hm with
  | call hc hcall => exact passes_of_pingCalls h hc hcall
  | wait hex ha hwait => exact passes_of_pingWaits ha.1 hex hwait
  | elapse => exact .of_same rfl rfl rfl
  | begins => exact .of_same rfl rfl rfl
  | event => exact .of_same rfl rfl rfl
  | ends => exact .of_same rfl rfl rfl

/-- A ping task never locks `task_handle`. -/
theorem hasHandle_of_pingMoves {α : Type} {th th' : Thread Unit α} {q q' : Control}
    (hm : th.Moves Control.pingDiscipline K g w q choice w' th' q') :
    q'.hasHandle = q.hasHandle := by
  cases hm with
  | call hc hcall =>
      rename_i c r k run
      cases c with
      | unlock m => cases m <;> rfl
      | _ => rfl
  | wait hex ha hwait =>
      rename_i a r k run
      cases a with
      | lock m => cases m <;> rfl
      | _ => rfl
  | elapse => rfl
  | begins => rfl
  | event => rfl
  | ends => rfl

/-- A thread is dropped, and its guards with it. -/
theorem passes_of_drop {σ α : Type} {th : Thread σ α} {s : ClientRuntime} {q : Control}
    (h : Locked s loc) (hstream : q.hasStream = false) (hhandle : q.hasHandle = false) :
    PassesBoth g s.world (th.drop g s.world) (loc g) q := by
  have hholder : (th.drop g s.world).holder =
      fun m => if s.world.holder m = some g then none else s.world.holder m := by
    rw [Thread.drop]
    split <;> rfl
  have hpasses {m : Mutex} {has : Control → Bool} (howned : Owned s.world m has loc)
      (hq : has q = false) :
      Passes g (s.world.holder m) ((th.drop g s.world).holder m) (has (loc g)) (has q) := by
    rw [hholder]
    by_cases heq : s.world.holder m = some g
    · exact .inr (.inr ⟨heq, if_pos heq, hq⟩)
    · refine .inl ⟨if_neg heq, hq.trans ?_⟩
      simpa [howned g] using heq
  exact ⟨hpasses h.stream hstream, hpasses h.handle hhandle⟩

theorem Locked.of_passes {s s' : ClientRuntime} {q : Control} (h : Locked s loc)
    (hpasses : PassesBoth g s.world s'.world (loc g) q)
    (hidle : s'.op = none → (Function.update loc g q .client).hasStream = false ∧
      (Function.update loc g q .client).hasHandle = false)
    (hq : g = .client ∨ q.hasHandle = false) : Locked s' (Function.update loc g q) := by
  refine ⟨h.stream.update hpasses.1, h.handle.update hpasses.2, hidle, fun t => ?_⟩
  by_cases heq : Agent.ping t = g
  · subst heq
    rw [Function.update_self]
    exact hq.resolve_left nofun
  · rw [Function.update_of_ne heq]
    exact h.pings t

theorem Locked.step {s s' : ClientRuntime} {loc' : Agent → Control} {a : Act}
    (h : Locked s loc) (hm : (controlRegime K).Moves s loc a s' loc') : Locked s' loc' := by
  cases hm with
  | start hop =>
      obtain ⟨hstream, hhandle⟩ := h.idle hop
      exact h.of_passes (.of_same rfl hstream.symm hhandle.symm) nofun (.inl rfl)
  | client hop hmove => exact h.of_passes (passes_of_clientMoves h hmove) nofun (.inl rfl)
  | finish hop hcall hends =>
      exact ⟨h.stream, h.handle, fun _ => ⟨hends.noStream, hends.noHandle⟩, h.pings⟩
  | cancel hop =>
      refine h.of_passes (passes_of_drop h rfl rfl) (fun _ => ?_) (.inl rfl)
      rw [Function.update_self]
      exact ⟨rfl, rfl⟩
  | ping halive hparked hmove =>
      exact h.of_passes (passes_of_pingMoves h hmove) h.idle
        (.inr ((hasHandle_of_pingMoves hmove).trans (h.pings _)))
  | drop halive => exact h.of_passes (passes_of_drop h rfl rfl) h.idle (.inr rfl)
  | _ => exact ⟨h.stream, h.handle, h.idle, h.pings⟩

theorem locked_of_fresh {s : ClientRuntime} (h : Fresh s) : Locked s fun _ => .idle := by
  refine ⟨fun g => ?_, fun g => ?_, fun _ => ⟨rfl, rfl⟩, fun _ => rfl⟩ <;>
    simp [h.unlocked, Control.idle]

/-- Only the operation of the caller locks `task_handle`. -/
theorem Locked.handle_free {s : ClientRuntime} (h : Locked s loc)
    (hclient : (loc .client).hasHandle = false) : s.world.holder .taskHandle = none := by
  cases hm : s.world.holder .taskHandle with
  | none => rfl
  | some g =>
      have hhas := (h.handle g).mp hm
      cases g with
      | client => exact absurd (hhas.symm.trans hclient) nofun
      | ping t => exact absurd (hhas.symm.trans (h.pings t)) nofun

end ClientRuntime

end Wagonet
