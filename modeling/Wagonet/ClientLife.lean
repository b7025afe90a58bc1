import Wagonet.OnePingTask

/-!
The end of a client's life.

Nothing can be awaited in `drop`: it tries to lock `task_handle`, takes the handle and
aborts the task, then tries to lock `should_stop` and sets it. The ping task may be
anywhere in its iteration meanwhile, and it shares what it needs with the client, so that
it can go on when the client is gone. No ping task ever locks `task_handle`, and when a
client is dropped no operation of it is left; the first of the two locks is always free,
and each of the two statements can be taken as one step.
-/

namespace Wagonet

open Library

inductive ClientLife.Stage
  | inUse
  /-- `drop` has looked for the ping task -/
  | dropping
  | dropped
  deriving DecidableEq

/-- A client with its ping tasks, which outlive it. -/
structure ClientLife where
  runtime : ClientRuntime
  stage : ClientLife.Stage
  /-- an operation was cancelled; the programs do not depend on that -/
  cancelled : Bool

namespace ClientLife

open ClientRuntime (World)

/-- `if let Ok(mut task_handle) = self.ping_state.task_handle().try_lock() && ..` -/
def abortTask (w : World) : World :=
  if w.holder .taskHandle = none then
    match w.taskHandle with
    | some t =>
        { w with
          taskHandle := none
          aborted := if t < w.homes.length then t :: w.aborted else w.aborted }
    | none => w
  else
    w

/-- `if let Ok(mut should_stop) = self.ping_state.should_stop().try_lock()` -/
def signalStop (w : World) : World :=
  if w.holder .shouldStop = none then { w with shouldStop := true } else w

inductive Act
  | runtime (a : ClientRuntime.Act)
  /-- the client is dropped: the first statement of `drop` -/
  | abortTask
  /-- the second one -/
  | signalStop

def isCancel : ClientRuntime.Act → Bool
  | .cancel => true
  | _ => false

/-- An operation borrows the client, which is not dropped before the operation has ended. -/
def step (K : ClientKind) (s : ClientLife) : Act → Option ClientLife
  | .runtime a =>
      if s.stage = .inUse ∨ a.ofTask = true then
        (s.runtime.step K a).map fun runtime =>
          { s with runtime := runtime, cancelled := s.cancelled || isCancel a }
      else
        none
  | .abortTask =>
      if s.stage = .inUse ∧ s.runtime.op.isNone = true then
        some { s with
          runtime := { s.runtime with world := abortTask s.runtime.world }
          stage := .dropping }
      else
        none
  | .signalStop =>
      if s.stage = .dropping then
        some { s with
          runtime := { s.runtime with world := signalStop s.runtime.world }
          stage := .dropped }
      else
        none

def machine (K : ClientKind) : Machine ClientLife Act where
  init s := ClientRuntime.Fresh s.runtime ∧ s.stage = .inUse ∧ s.cancelled = false
  step := step K

def new : ClientLife := ⟨.new, .inUse, false⟩

/-- While `task_handle` is awaited no operation is cancelled and no timer runs out, and a
client whose operation was cancelled is used no more. -/
def Orderly (s : ClientLife) : Act → Prop
  | .runtime (.start _) => s.cancelled = false
  | .runtime .cancel => s.runtime.wanted .client ≠ some .taskHandle
  | .runtime (.client (.elapse _)) => s.runtime.wanted .client ≠ some .taskHandle
  | _ => True

instance (s : ClientLife) : ∀ a, Decidable (Orderly s a)
  | .runtime (.start _) => inferInstanceAs (Decidable (_ = _))
  | .runtime .cancel | .runtime (.client (.elapse _)) => inferInstanceAs (Decidable (_ ≠ _))
  | .runtime (.client .go) | .runtime (.client (.fail _)) | .runtime (.client (.tlsFail _))
  | .runtime (.client (.duration _)) | .runtime (.client (.bytes _))
  | .runtime (.client (.written _)) | .runtime .finish | .runtime (.ping _ _)
  | .runtime (.park _) | .runtime (.resume _) | .runtime (.turn _) | .runtime (.drop _)
  | .abortTask | .signalStop => .isTrue trivial

/-- No ping task is left that would go on: it has ended, or it was aborted, and then it is
not polled again once it is suspended, and can be dropped there. -/
structure Silent (K : ClientKind) (s : ClientLife) : Prop where
  gone : ∀ t, ¬s.runtime.Live t
  resumed : ∀ t, step K s (.runtime (.resume t)) = none
  drops : ∀ t, s.runtime.alive t → (s.runtime.pings t).parked = true →
    ∃ s', step K s (.runtime (.drop t)) = some s' ∧ ¬s'.runtime.alive t

variable {K : ClientKind} {s s' : ClientLife} {loc : Agent → Control}

theorem silent_of_gone (h : ∀ t, ¬s.runtime.Live t) : Silent K s := by
  have haborted : ∀ t, s.runtime.alive t → t ∈ s.runtime.world.aborted := fun t halive =>
    by_contra fun hmem => h t ⟨halive, hmem⟩
  refine ⟨h, fun t => ?_, fun t halive hparked => ?_⟩
  · have hnot : ¬(s.runtime.alive t ∧ (s.runtime.pings t).parked = true ∧
        t ∉ s.runtime.world.aborted) := fun hr => hr.2.2 (haborted t hr.1)
    simp only [step, ClientRuntime.Act.ofTask, or_true, if_true, ClientRuntime.step,
      if_neg hnot, Option.map_none]
  · have hdrop : s.runtime.step K (.drop t) =
        some ({ s.runtime with
          world := (s.runtime.pings t).thread.drop (.ping t) s.runtime.world }.setPing t
            { s.runtime.pings t with ended := true }) :=
      if_pos ⟨halive, hparked, haborted t halive⟩
    refine ⟨_, (if_pos (.inr rfl)).trans (Option.map_eq_some_iff.mpr ⟨_, hdrop, rfl⟩), ?_⟩
    rintro ⟨-, hended⟩
    simp [ClientRuntime.setPing] at hended

/-! ### What `drop` does -/

theorem holder_abortTask (w : World) : (abortTask w).holder = w.holder := by
  unfold abortTask
  split
  · split <;> rfl
  · rfl

section

variable {s s' : ClientRuntime} {loc' : Agent → Control} {a : ClientRuntime.Act}

/-- No operation is left, and the live ping task is where it can be found. -/
structure Rests (s : ClientRuntime) (loc : Agent → Control) : Prop where
  op : s.op = none
  locked : ClientRuntime.Locked s loc
  places : s.Places (loc .client).handle
  still : (loc .client).handle.Still

theorem Rests.of_handled (h : ClientRuntime.Handled s loc) (hop : s.op = none) : Rests s loc :=
  ⟨hop, h.locked, h.places, h.still hop⟩

theorem Rests.of_sameOp (h : Rests s loc) (hlocked : ClientRuntime.Locked s' loc')
    (hsame : ClientRuntime.SameOp s loc s' loc') : Rests s' loc' := by
  refine ⟨hsame.op.trans h.op, hlocked, ?_, ?_⟩
  · rw [hsame.client]
    exact h.places.mono hsame.live hsame.handle
  · rw [hsame.client]
    exact h.still

/-- The local state of the caller's operation says something else about the handle. -/
def withHandle (loc : Agent → Control) (h : Handle) : Agent → Control :=
  Function.update loc .client { loc .client with handle := h }

@[simp] theorem withHandle_client (h : Handle) :
    withHandle loc h .client = { loc .client with handle := h } := Function.update_self ..

theorem locked_withHandle {h : Handle} (hlocked : ClientRuntime.Locked s loc)
    (hop : s.op = none) (hw : s'.world.holder = s.world.holder) :
    ClientRuntime.Locked s' (withHandle loc h) := by
  refine hlocked.of_passes (.of_same hw rfl rfl) (fun _ => ?_) (.inl rfl)
  rw [Function.update_self]
  exact hlocked.idle hop

/-- The programs that run are those that ran before. -/
theorem obeyed_withHandle {h : Handle} {w : World}
    (hobeyed : (ClientRuntime.controlRegime K).Obeyed s loc) (hop : s.op = none) :
    (ClientRuntime.controlRegime K).Obeyed { s with world := w } (withHandle loc h) := by
  refine ⟨fun th hth => absurd (hop.symm.trans hth) (by simp), ?_, ?_, hobeyed.parked⟩
  · simpa [withHandle] using hobeyed.ping
  · simpa [withHandle] using hobeyed.ended

/-- The lock is free and the handle is in its place, so that no live task escapes. -/
theorem places_abortTask (h : Rests s loc) :
    ClientRuntime.Places { s with world := abortTask s.world } .gone := by
  have hfree := h.locked.handle_free (h.locked.idle h.op).2
  intro t ht
  simp only [abortTask, if_pos hfree] at ht
  cases hhandle : s.world.taskHandle with
  | none =>
      simp only [hhandle] at ht
      exact absurd (hhandle.symm.trans (h.places.of_still h.still ht)) (by simp)
  | some t₀ =>
      simp only [hhandle] at ht
      obtain ⟨halive, hmem⟩ := ht
      have hlt : t < s.world.homes.length := halive.1
      by_cases heq : t = t₀
      · subst heq
        exact hmem (by simp [hlt])
      · have hold : t ∉ s.world.aborted := by
          intro ha
          refine hmem ?_
          simp only
          split
          · exact List.mem_cons_of_mem _ ha
          · exact ha
        have hfound := h.places.of_still h.still ⟨halive, hold⟩
        exact heq (Option.some.inj (hfound.symm.trans hhandle))

theorem Rests.abortTask (h : Rests s loc) :
    Rests { s with world := abortTask s.world } (withHandle loc .gone) := by
  refine ⟨h.op, locked_withHandle h.locked h.op (holder_abortTask _), ?_, ?_⟩
  · rw [withHandle_client]
    exact places_abortTask h
  · rw [withHandle_client]
    exact .inr (.inl rfl)

theorem Rests.signalStop (h : Rests s loc) :
    Rests { s with world := signalStop s.world } loc := by
  unfold ClientLife.signalStop
  split
  · exact h.of_sameOp ⟨h.locked.stream, h.locked.handle, h.locked.idle, h.locked.pings⟩
      ⟨rfl, fun _ => id, rfl, rfl, rfl, rfl, rfl⟩
  · exact h

/-! ### Steps of a client that rests, or comes to rest -/

/-- Without an operation only a ping task can take a step, unless one is begun. -/
theorem ofTask_of_idle (hop : s.op = none) (hstart : ∀ op, a ≠ .start op)
    (hm : (ClientRuntime.controlRegime K).Moves s loc a s' loc') : a.ofTask = true := by
  cases hm with
  | start => exact absurd rfl (hstart _)
  | client hop' => exact absurd (hop.symm.trans hop') (by simp)
  | finish hop' => exact absurd (hop.symm.trans hop') (by simp)
  | cancel hop' => exact absurd (hop.symm.trans hop') (by simp)
  | _ => rfl

theorem Rests.step (h : Rests s loc) (ha : a.ofTask = true)
    (hm : (ClientRuntime.controlRegime K).Moves s loc a s' loc') : Rests s' loc' :=
  h.of_sameOp (h.locked.step hm) (ClientRuntime.sameOp_of_ofTask ha hm)

/-- Where an operation may be cancelled its handles are in their place. -/
theorem still_of_waits {th : ClientRuntime.Thread ClientFields (Except Error (List UInt8))}
    {q : Control} (hwaits : th.Waits Control.discipline q)
    (hwanted : th.wanted ≠ some .taskHandle) : q.handle.Still := by
  obtain ⟨fields, ts, a, k, htask, hwaits⟩ := hwaits
  refine hwaits.2.1.resolve_left fun hlock => ?_
  subst hlock
  exact hwanted (by rw [ClientRuntime.Thread.wanted, htask])

theorem rests_of_cancel (h : ClientRuntime.Handled s loc)
    (hwanted : s.wanted .client ≠ some .taskHandle)
    (hm : (ClientRuntime.controlRegime K).Moves s loc .cancel s' loc') :
    s'.op = none ∧ Rests s' (withHandle loc' (loc .client).handle) := by
  have hlocked := h.locked.step hm
  cases hm with
  | cancel hop hbegun hwaits =>
      rename_i th
      rw [ClientRuntime.wanted, hop, Option.bind_some] at hwanted
      have hstill : (loc .client).handle.Still := still_of_waits hwaits hwanted
      refine ⟨rfl, rfl, locked_withHandle hlocked rfl rfl, ?_, ?_⟩
      · rw [withHandle_client]
        exact h.places.of_sameTasks (ClientRuntime.World.sameTasks_drop (g := .client))
          fun _ => id
      · rw [withHandle_client]
        exact hstill

end

/-! ### Along a life -/

/-- The handle of the live task is where it belongs, and after `drop` there is none. -/
structure Kept (K : ClientKind) (s : ClientLife) (loc : Agent → Control) : Prop where
  obeyed : (ClientRuntime.controlRegime K).Obeyed s.runtime loc
  handled : s.stage = .inUse → s.cancelled = false → ClientRuntime.Handled s.runtime loc
  rests : s.stage ≠ .inUse ∨ s.cancelled = true → Rests s.runtime loc
  gone : s.stage ≠ .inUse → (loc .client).handle = .gone

theorem Kept.rests_of_idle (h : Kept K s loc) (hstage : s.stage = .inUse)
    (hop : s.runtime.op = none) : Rests s.runtime loc := by
  cases hcancelled : s.cancelled with
  | false => exact .of_handled (h.handled hstage hcancelled) hop
  | true => exact h.rests (.inr hcancelled)

/-- The client rests, and only ping tasks take steps. -/
theorem Kept.rest_step {a : ClientRuntime.Act} {runtime : ClientRuntime}
    {loc' : Agent → Control} (h : Kept K s loc)
    (hrest : s.stage ≠ .inUse ∨ s.cancelled = true) (ha : a.ofTask = true)
    (hobeyed : (ClientRuntime.controlRegime K).Obeyed runtime loc')
    (hm : (ClientRuntime.controlRegime K).Moves s.runtime loc a runtime loc') :
    Kept K { s with runtime := runtime, cancelled := s.cancelled || isCancel a } loc' := by
  refine ⟨hobeyed, fun hstage hcancelled => ?_, fun _ => (h.rests hrest).step ha hm,
    fun hne => ?_⟩
  · rcases hrest with hne | hcancelled'
    · exact absurd hstage hne
    · simp [hcancelled'] at hcancelled
  · rw [(ClientRuntime.sameOp_of_ofTask ha hm).client]
    exact h.gone hne

/-- The client is in use. -/
theorem Kept.use_step {a : ClientRuntime.Act} {runtime : ClientRuntime}
    {loc' : Agent → Control} (h : Kept K s loc) (hstage : s.stage = .inUse)
    (hcancelled : s.cancelled = false) (hok : Orderly s (.runtime a))
    (hobeyed : (ClientRuntime.controlRegime K).Obeyed runtime loc')
    (hm : (ClientRuntime.controlRegime K).Moves s.runtime loc a runtime loc') :
    ∃ loc', Kept K { s with runtime := runtime, cancelled := s.cancelled || isCancel a }
      loc' := by
  have hhandled := h.handled hstage hcancelled
  cases hcancel : isCancel a with
  | true =>
      obtain rfl : a = .cancel := by
        cases a with
        | cancel => rfl
        | _ => cases hcancel
      obtain ⟨hop, hrests⟩ := rests_of_cancel hhandled hok hm
      exact ⟨_, obeyed_withHandle hobeyed hop, by simp, fun _ => hrests,
        fun hne => absurd hstage hne⟩
  | false =>
      refine ⟨loc', hobeyed, fun _ _ => hhandled.step h.obeyed ?_ hm, ?_,
        fun hne => absurd hstage hne⟩
      · cases a with
        | cancel => cases hcancel
        | client choice => cases choice <;> exact hok
        | _ => trivial
      · rintro (hne | htrue)
        · exact absurd hstage hne
        · simp [hcancelled] at htrue

theorem Kept.step {a : Act} (h : Kept K s loc) (hok : Orderly s a)
    (hs : ClientLife.step K s a = some s') : ∃ loc', Kept K s' loc' := by
  cases a with
  | runtime a =>
      simp only [ClientLife.step] at hs
      split at hs
      · rename_i hmay
        obtain ⟨runtime, hstep, rfl⟩ := Option.map_eq_some_iff.mp hs
        obtain ⟨loc', hobeyed, hmove⟩ := h.obeyed.step hstep
        by_cases hrest : s.stage ≠ .inUse ∨ s.cancelled = true
        · refine ⟨loc', h.rest_step hrest ?_ hobeyed hmove⟩
          rcases hrest with hne | hcancelled
          · exact hmay.resolve_left hne
          · refine ofTask_of_idle (h.rests (.inr hcancelled)).op ?_ hmove
            rintro op rfl
            exact absurd (hcancelled.symm.trans hok) (by simp)
        · obtain ⟨hstage, hcancelled⟩ := not_or.mp hrest
          exact h.use_step (not_not.mp hstage) (by simpa using hcancelled) hok hobeyed hmove
      · cases hs
  | abortTask =>
      simp only [ClientLife.step] at hs
      split at hs
      · rename_i hmay
        cases hs
        have hrests := h.rests_of_idle hmay.1 (Option.isNone_iff_eq_none.mp hmay.2)
        exact ⟨_, obeyed_withHandle h.obeyed hrests.op, by simp, fun _ => hrests.abortTask,
          fun _ => by rw [withHandle_client]⟩
      · cases hs
  | signalStop =>
      simp only [ClientLife.step] at hs
      split at hs
      · rename_i hstage
        cases hs
        have hne : s.stage ≠ .inUse := by
          rw [hstage]
          simp
        exact ⟨loc, ⟨h.obeyed.client, h.obeyed.ping, h.obeyed.ended, h.obeyed.parked⟩, by simp,
          fun _ => (h.rests (.inl hne)).signalStop, fun _ => h.gone hne⟩
      · cases hs

theorem kept_of_reachable (h : (machine K).Reachable Orderly s) : ∃ loc, Kept K s loc := by
  refine h.invariant (fun s => ∃ loc, Kept K s loc) ?_ ?_
  · rintro s ⟨hfresh, hstage, hcancelled⟩
    refine ⟨_, ClientRuntime.Regime.obeyed_of_fresh _ hfresh, fun _ _ => .of_fresh hfresh, ?_,
      fun hne => absurd hstage hne⟩
    rintro (hne | htrue)
    · exact absurd hstage hne
    · exact absurd (hcancelled.symm.trans htrue) (by simp)
  · rintro s a s' ⟨loc, hkept⟩ hok hs
    exact hkept.step hok hs

/-- A client that is dropped leaves no ping task behind that would go on, wherever in its
iteration the task is and whatever it has locked. -/
theorem silent_after_drop (h : (machine K).Reachable Orderly s) (hstage : s.stage ≠ .inUse) :
    Silent K s := by
  obtain ⟨loc, hkept⟩ := kept_of_reachable h
  exact silent_of_gone ((hkept.rests (.inl hstage)).places.of_stopped (.inl (hkept.gone hstage)))

/-- The ping task has locked the stream; a request that waits for that is cancelled, and
the client is dropped. -/
def droppedWhilePinging : List Act :=
  (ClientRuntime.connecting ++ ClientRuntime.pinging).map .runtime ++
    [.runtime (.start (.handleMessage 1 [])), .runtime .cancel, .abortTask, .signalStop]

theorem silent_after_drop_pinging :
    ∃ s, (machine .tl).run new droppedWhilePinging = some s ∧ s.runtime.alive 0 ∧
      s.stage = .dropped ∧ Silent .tl s := by
  obtain ⟨s, hs, hproj⟩ := Option.map_eq_some_iff.mp
    (show ((machine .tl).run new droppedWhilePinging).map
      (fun s => (decide (s.runtime.alive 0), s.stage)) = some (true, .dropped) by decide +kernel)
  simp only [Prod.mk.injEq, decide_eq_true_eq] at hproj
  have hreach : (machine .tl).Reachable Orderly s :=
    Machine.Along.reachable (.init ⟨ClientRuntime.fresh_new, rfl, rfl⟩) (by decide +kernel) hs
  have hstage : s.stage ≠ .inUse := by
    rw [hproj.2]
    simp
  exact ⟨s, hs, hproj.1, hproj.2, silent_after_drop hreach hstage⟩

-- `connect` is cancelled just before it stores the handle; `drop` does not find that task
example :
    ((machine .tl).run new
      (([.start (.setKeepAlive true)] ++ ClientRuntime.clientGoes 4 ++
        [.finish, .start .connect] ++ ClientRuntime.clientGoes 20 ++ [.cancel] :
          List ClientRuntime.Act).map .runtime ++ [.abortTask, .signalStop])).map
        (fun s => (decide (s.runtime.Live 0), s.stage)) = some (true, .dropped) := by
  decide +kernel

end ClientLife

end Wagonet
