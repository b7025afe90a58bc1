import Wagonet.ClientUse

/-!
The answer mode of a client.

`handle_message_with_no_answer` switches the mode off for its own request, and its guard
switches it on again. That restores what was set before only if it was on.
-/

namespace Wagonet

open Library ClientRuntime

namespace ClientUse

variable {K : ClientKind} {s s' : ClientUse} {loc loc' : Agent → Settings} {a : Act}

/-- The mode in which an operation runs. -/
def inForce (s : ClientUse) : Bool := if s.guarded then false else s.mode

/-- A `handle_message_with_no_answer` begins only while the mode is answer mode. -/
def RestoresMode (s : ClientUse) (a : Act) : Prop :=
  ∀ command requestData, a = .startNoAnswer command requestData → s.mode = true

/-- The field is the mode in force, and there is a guard only around an operation, with
the mode set to answer mode. -/
structure Moded (s : ClientUse) (loc : Agent → Settings) : Prop where
  knows : KnowsFields s.runtime loc
  mode : s.runtime.fields.commandHasAnswer = s.inForce
  guarded : s.guarded = true → s.runtime.op ≠ none ∧ s.mode = true

theorem moded_new (loc : Agent → Settings) : Moded new loc :=
  ⟨fun h => absurd rfl h, rfl, nofun⟩

/-- What the caller does between two operations. -/
theorem Moded.of_idle (hop : s.runtime.op = none) (hguard : s.guarded = false)
    (hmode : s.runtime.fields.commandHasAnswer = s.mode) : Moded s loc := by
  refine ⟨fun h => absurd hop h, ?_, fun h => ?_⟩
  · rw [inForce, hguard]
    exact hmode
  · exact absurd (hguard.symm.trans h) nofun

/-- The end of an operation, with or without a guard. -/
theorem Moded.dropGuard (hop : s.runtime.op = none)
    (hmode : s.runtime.fields.commandHasAnswer = s.inForce)
    (hguarded : s.guarded = true → s.mode = true) : Moded s.dropGuard loc := by
  rw [ClientUse.dropGuard]
  split
  · rename_i hg
    exact .of_idle hop rfl (hguarded hg).symm
  · rename_i hg
    have hguard : s.guarded = false := Bool.eq_false_iff.mpr hg
    rw [inForce, hguard] at hmode
    exact .of_idle hop hguard hmode

theorem Moded.unguarded (h : Moded s loc) (hop : s.runtime.op = none) : s.guarded = false :=
  Bool.eq_false_iff.mpr fun hg => (h.guarded hg).1 hop

theorem Moded.step (h : Moded s loc) (hok : RestoresMode s a)
    (hm : Moves (settingsRegime K) s loc a s' loc') : Moded s' loc' := by
  cases hm with
  | runtime hends hmove =>
      have hsame := (h.knows.sameLimits hmove).1
      refine ⟨h.knows.step hmove, hsame.trans h.mode, fun hg => ?_⟩
      obtain ⟨hop, hmode⟩ := h.guarded hg
      exact ⟨op_of_not_ends hmove hends hop, hmode⟩
  | ends hends hmove =>
      have hsame := (h.knows.sameLimits hmove).1
      exact .dropGuard (op_of_ends hmove hends) (hsame.trans h.mode) fun hg => (h.guarded hg).2
  | setCommandHasAnswer hop => exact .of_idle hop (h.unguarded hop) rfl
  | setMaxBufferSize hop =>
      have hguard := h.unguarded hop
      have hmode := h.mode
      rw [inForce, hguard] at hmode
      exact .of_idle hop hguard (ClientFields.setMaxBufferSize_commandHasAnswer.trans hmode)
  | startNoAnswer hmove =>
      have hmode := hok _ _ rfl
      cases hmove with
      | start hop =>
          refine ⟨fun _ => ?_, rfl, fun _ => ⟨nofun, hmode⟩⟩
          rw [Function.update_self]
          rfl

/-- Along every run in which a `handle_message_with_no_answer` begins only in answer mode:
between two operations the mode is the one that was set last, and every exchange of a
`handle_message` runs in that mode, or in no-answer mode under the guard. -/
theorem answer_mode_kept (h : (machine K).Reachable RestoresMode s) :
    (s.runtime.op = none → s.guarded = false ∧ s.runtime.fields.commandHasAnswer = s.mode) ∧
    ∀ th run, s.runtime.op = some th → th.running = some run →
      ∃ command data maxBufferSize, run.exchange =
        .request command data (if s.guarded then false else s.mode) maxBufferSize := by
  obtain ⟨loc, hobeyed, hmoded⟩ := ClientUse.invariant (settingsRegime K) Moded (moded_new _)
    (fun _ _ _ _ _ _ h hok hm => h.step hok hm) h
  refine ⟨fun hop => ?_, fun th run hop hrun => ?_⟩
  · have hguard := hmoded.unguarded hop
    have hmode := hmoded.mode
    rw [inForce, hguard] at hmode
    exact ⟨hguard, hmode⟩
  · obtain ⟨command, data, hx, -⟩ := hmoded.knows.exchange hobeyed hop hrun
    rw [hmoded.mode] at hx
    exact ⟨command, data, _, hx⟩

/-- The mode of the request that is under way. -/
def requestMode (s : ClientUse) : Option Bool :=
  match s.runtime.op.bind (·.running) with
  | some ⟨⟨_, .request _ _ commandHasAnswer _, _⟩, _⟩ => some commandHasAnswer
  | _ => none

/-- So many steps of the operation that cannot fail. -/
def goes (n : Nat) : List Act := List.replicate n (.runtime (.client .go))

/-- The request of a `handle_message_with_no_answer` begins. -/
def sendsNoAnswer : List Act := .startNoAnswer 7 [] :: goes 14

instance (s : ClientUse) (a : Act) : Decidable (RestoresMode s a) :=
  match a with
  | .startNoAnswer _ _ =>
      decidable_of_iff (s.mode = true) ⟨fun h _ _ _ => h, fun h => h _ _ rfl⟩
  | .runtime _ => .isTrue nofun
  | .setCommandHasAnswer _ => .isTrue nofun
  | .setMaxBufferSize _ _ => .isTrue nofun

theorem answer_mode_kept_sendsNoAnswer :
    ∃ s th run, (machine .tl).run new sendsNoAnswer = some s ∧ s.runtime.op = some th ∧
      th.running = some run ∧ s.guarded = true ∧ ∃ command data maxBufferSize,
        run.exchange = .request command data false maxBufferSize := by
  obtain ⟨s, hs, hproj⟩ := Option.map_eq_some_iff.mp
    (show ((machine .tl).run new sendsNoAnswer).map
      (fun s => ((s.runtime.op.bind (·.running)).isSome, s.guarded)) = some (true, true) by
        decide +kernel)
  obtain ⟨hrunning, hguarded⟩ := Prod.mk.inj hproj
  obtain ⟨run, hrun⟩ := Option.isSome_iff_exists.mp hrunning
  obtain ⟨th, hop, hrun⟩ := Option.bind_eq_some_iff.mp hrun
  have hreach : (machine .tl).Reachable RestoresMode s :=
    Machine.Along.reachable (.init rfl) (by decide +kernel) hs
  have hx := (answer_mode_kept hreach).2 th run hop hrun
  rw [if_pos hguarded] at hx
  exact ⟨s, th, run, hs, hop, hrun, hguarded, hx⟩

/-- After `set_command_has_answer(false)` and a `handle_message_with_no_answer` whose
future was dropped, a `handle_message` runs in answer mode. -/
theorem answer_mode_reset :
    ∃ s, (machine .tl).run new ([.setCommandHasAnswer false, .startNoAnswer 7 [],
        .runtime .cancel, .runtime (.start (.handleMessage 7 []))] ++ goes 14) = some s ∧
      s.guarded = false ∧ s.mode = false ∧ s.requestMode = some true := by
  obtain ⟨s, hs, hproj⟩ := Option.map_eq_some_iff.mp
    (show ((machine .tl).run new ([.setCommandHasAnswer false, .startNoAnswer 7 [],
      .runtime .cancel, .runtime (.start (.handleMessage 7 []))] ++ goes 14)).map
        (fun s => (s.guarded, s.mode, s.requestMode)) = some (false, false, some true) by
          decide +kernel)
  obtain ⟨hguarded, hproj⟩ := Prod.mk.inj hproj
  obtain ⟨hmode, hrequest⟩ := Prod.mk.inj hproj
  exact ⟨s, hs, hguarded, hmode, hrequest⟩

end ClientUse

end Wagonet
