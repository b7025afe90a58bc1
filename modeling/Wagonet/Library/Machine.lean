import Mathlib

/-!
Machines with an executable step function.

A step is a partial function of the state and of an action; the action
carries every choice the outside world has. Reachability is relative to a
side condition `ok` on the steps taken, so that "along every run whose
steps all satisfy `ok`" and "along every run" are one notion.
-/

namespace Wagonet.Library

/-- A transition system with an executable partial step function. -/
structure Machine (S A : Type) where
  init : S → Prop
  step : S → A → Option S

namespace Machine

variable {S A : Type} (M : Machine S A) {ok : S → A → Prop}

/-- Perform a list of actions in order, failing on the first that is not enabled. -/
def run : S → List A → Option S
  | s, [] => some s
  | s, a :: as => (M.step s a).bind fun s' => run s' as

@[simp] theorem run_nil (s : S) : M.run s [] = some s := rfl

theorem run_cons (s : S) (a : A) (as : List A) :
    M.run s (a :: as) = (M.step s a).bind fun s' => M.run s' as := rfl

theorem run_cons_of_step {s s' : S} {a : A} {as : List A} (h : M.step s a = some s') :
    M.run s (a :: as) = M.run s' as := by
  rw [run_cons, h, Option.bind_some]

theorem run_append (s : S) (as as' : List A) :
    M.run s (as ++ as') = (M.run s as).bind fun s' => M.run s' as' := by
  induction as generalizing s with
  | nil => rfl
  | cons a as ih =>
      rw [List.cons_append, run_cons, run_cons, Option.bind_assoc]
      exact congrArg _ (funext fun t => ih t)

/-- The states reached by runs whose steps all satisfy `ok`. -/
inductive Reachable (ok : S → A → Prop) : S → Prop
  | init {s : S} : M.init s → Reachable ok s
  | step {s s' : S} {a : A} :
      Reachable ok s → ok s a → M.step s a = some s' → Reachable ok s'

/-- No side condition on the steps. -/
abbrev anyStep : S → A → Prop := fun _ _ => True

variable {M}

/-- The induction over a run, packaged once: what holds at the start and is
preserved by one step holds of every state reached. -/
theorem Reachable.invariant (I : S → Prop) (hinit : ∀ s, M.init s → I s)
    (hstep : ∀ s a s', I s → ok s a → M.step s a = some s' → I s') {s : S}
    (h : M.Reachable ok s) : I s := by
  induction h with
  | init h => exact hinit _ h
  | step _ hok hs ih => exact hstep _ _ _ ih hok hs

theorem Reachable.mono {ok' : S → A → Prop} (hok : ∀ s a, ok s a → ok' s a) {s : S}
    (h : M.Reachable ok s) : M.Reachable ok' s := by
  induction h with
  | init h => exact .init h
  | step _ h hs ih => exact .step ih (hok _ _ h) hs

/-- A run of steps that satisfy `ok` at every state leads to reachable states. -/
theorem Reachable.run {s s' : S} {as : List A} (h : M.Reachable ok s)
    (hok : ∀ a ∈ as, ∀ t, ok t a) (hr : M.run s as = some s') : M.Reachable ok s' := by
  induction as generalizing s with
  | nil =>
      cases hr
      exact h
  | cons a as ih =>
      rw [run_cons, Option.bind_eq_some_iff] at hr
      obtain ⟨t, ht, hr⟩ := hr
      exact ih (h.step (hok a (by simp) s) ht) (fun b hb => hok b (by simp [hb])) hr

/-- Forward simulation: if every step is matched by a step of `N` or by none at all,
then what is reached is related to something that `N` reaches. -/
theorem Reachable.simulates {T B : Type} {N : Machine T B} {ok' : T → B → Prop}
    (R : S → T → Prop) (hinit : ∀ s, M.init s → ∃ t, N.init t ∧ R s t)
    (hstep : ∀ s t a s', R s t → ok s a → M.step s a = some s' →
      R s' t ∨ ∃ b t', ok' t b ∧ N.step t b = some t' ∧ R s' t')
    {s : S} (h : M.Reachable ok s) : ∃ t, N.Reachable ok' t ∧ R s t := by
  induction h with
  | init h =>
      obtain ⟨t, ht, hR⟩ := hinit _ h
      exact ⟨t, .init ht, hR⟩
  | step _ hok hs ih =>
      obtain ⟨t, ht, hR⟩ := ih
      rcases hstep _ t _ _ hR hok hs with hR' | ⟨b, t', hb, hs', hR'⟩
      · exact ⟨t, ht, hR'⟩
      · exact ⟨t', ht.step hb hs', hR'⟩

/-! ### Runs given by their actions -/

/-- All steps of the run of these actions satisfy `ok`. -/
def Along (M : Machine S A) (ok : S → A → Prop) : S → List A → Prop
  | _, [] => True
  | s, a :: as => ok s a ∧ ∀ s', M.step s a = some s' → M.Along ok s' as

instance decidableAlong [∀ s a, Decidable (ok s a)] :
    ∀ (s : S) (as : List A), Decidable (M.Along ok s as)
  | _, [] => .isTrue trivial
  | s, a :: as =>
      have : Decidable (∀ s', M.step s a = some s' → M.Along ok s' as) :=
        match h : M.step s a with
        | none => .isTrue nofun
        | some t =>
            have := decidableAlong t as
            decidable_of_iff (M.Along ok t as)
              ⟨fun ht s' hs => by cases hs; exact ht, fun ht => ht t rfl⟩
      inferInstanceAs (Decidable (_ ∧ _))

theorem Along.of_forall {s : S} {as : List A} (h : ∀ a ∈ as, ∀ t, ok t a) : M.Along ok s as := by
  induction as generalizing s with
  | nil => trivial
  | cons a as ih =>
      refine ⟨h a (List.mem_cons_self ..) s, fun _ _ => ih fun b hb => ?_⟩
      exact h b (List.mem_cons_of_mem _ hb)

/-- A run of actions whose steps satisfy `ok` leads to reachable states. -/
theorem Along.reachable {s s' : S} {as : List A} (h : M.Reachable ok s) (hok : M.Along ok s as)
    (hr : M.run s as = some s') : M.Reachable ok s' := by
  induction as generalizing s with
  | nil =>
      cases hr
      exact h
  | cons a as ih =>
      rw [run_cons, Option.bind_eq_some_iff] at hr
      obtain ⟨t, ht, hr⟩ := hr
      exact ih (h.step hok.1 ht) (hok.2 t ht) hr

/-- The rest of a run whose steps all satisfy `ok`. -/
theorem Along.rest {s t : S} {as as' : List A} (h : M.Along ok s (as ++ as'))
    (hr : M.run s as = some t) : M.Along ok t as' := by
  induction as generalizing s with
  | nil =>
      cases hr
      exact h
  | cons a as ih =>
      rw [run_cons, Option.bind_eq_some_iff] at hr
      obtain ⟨u, hu, hr⟩ := hr
      exact ih (h.2 u hu) hr

/-- Leave out some actions of a run. If a relation survives each remaining action,
performed on both sides, and each omitted action, performed on the left only, then
the shorter run exists and ends in a related state. -/
theorem run_filter {keep : A → Bool} {R : S → S → Prop}
    (hkeep : ∀ s t a s', R s t → ok s a → keep a = true → M.step s a = some s' →
      ∃ t', M.step t a = some t' ∧ R s' t')
    (homit : ∀ s t a s', R s t → ok s a → keep a = false → M.step s a = some s' → R s' t)
    {s s' t : S} {as : List A} (hR : R s t) (hok : M.Along ok s as)
    (hr : M.run s as = some s') : ∃ t', M.run t (as.filter keep) = some t' ∧ R s' t' := by
  induction as generalizing s t with
  | nil =>
      cases hr
      exact ⟨t, rfl, hR⟩
  | cons a as ih =>
      rw [run_cons, Option.bind_eq_some_iff] at hr
      obtain ⟨u, hu, hr⟩ := hr
      cases hk : keep a with
      | true =>
          obtain ⟨t', ht', hR'⟩ := hkeep s t a u hR hok.1 hk hu
          rw [List.filter_cons_of_pos hk, run_cons_of_step M ht']
          exact ih hR' (hok.2 u hu) hr
      | false =>
          rw [List.filter_cons_of_neg (by simp [hk])]
          exact ih (homit s t a u hR hok.1 hk hu) (hok.2 u hu) hr

end Machine

end Wagonet.Library
