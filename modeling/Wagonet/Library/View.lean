import Wagonet.Library.Machine

/-!
One machine seen through another one.

A view says of each action which action of the other machine it is, if any. When single
steps agree, whole runs do, with the actions that are none of the other machine's left out.
-/

namespace Wagonet.Library.Machine

variable {S T A B : Type} {M : Machine S A} {N : Machine T B}

/-- Each step of `M` is by this view a step of `N`, or none of its steps. -/
structure Views (M : Machine S A) (N : Machine T B) (own : A → Option B) (R : S → T → Prop) :
    Prop where
  omits : ∀ s t a s', R s t → own a = none → M.step s a = some s' → R s' t
  takes : ∀ s t a b s', R s t → own a = some b → M.step s a = some s' →
    ∃ t', N.step t b = some t' ∧ R s' t'

/-- A run, seen through a view. -/
theorem Views.run {own : A → Option B} {R : S → T → Prop} (hview : Views M N own R)
    {s s' : S} {t : T} {as : List A} (hR : R s t) (hr : M.run s as = some s') :
    ∃ t', N.run t (as.filterMap own) = some t' ∧ R s' t' := by
  induction as generalizing s t with
  | nil =>
      cases hr
      exact ⟨t, rfl, hR⟩
  | cons a as ih =>
      rw [run_cons, Option.bind_eq_some_iff] at hr
      obtain ⟨u, hu, hr⟩ := hr
      cases ha : own a with
      | none =>
          rw [List.filterMap_cons_none ha]
          exact ih (hview.omits s t a u hR ha hu) hr
      | some b =>
          obtain ⟨t', ht', hR'⟩ := hview.takes s t a b u hR ha hu
          rw [List.filterMap_cons_some ha, run_cons_of_step N ht']
          exact ih hR' hr

/-- What all steps of a run satisfy, seen through a view. -/
theorem Views.along {own : A → Option B} {R : S → T → Prop} (hview : Views M N own R)
    {ok : S → A → Prop} {ok' : T → B → Prop}
    (hok : ∀ s t a b, R s t → own a = some b → ok s a → ok' t b)
    {s s' : S} {t : T} {as : List A} (hR : R s t) (h : M.Along ok s as)
    (hr : M.run s as = some s') : N.Along ok' t (as.filterMap own) := by
  induction as generalizing s t with
  | nil => trivial
  | cons a as ih =>
      rw [run_cons, Option.bind_eq_some_iff] at hr
      obtain ⟨u, hu, hr⟩ := hr
      cases ha : own a with
      | none =>
          rw [List.filterMap_cons_none ha]
          exact ih (hview.omits s t a u hR ha hu) (h.2 u hu) hr
      | some b =>
          obtain ⟨t', ht', hR'⟩ := hview.takes s t a b u hR ha hu
          rw [List.filterMap_cons_some ha]
          refine ⟨hok s t a b hR ha h.1, fun t'' ht'' => ?_⟩
          cases ht'.symm.trans ht''
          exact ih hR' (h.2 u hu) hr

/-- A view of a machine on itself that keeps some actions and leaves out the others. When
it goes both ways, the actions that are left out make no difference. -/
theorem run_filter_both {keep : A → Bool} {ok : A → Prop} {R : S → S → Prop}
    (hkeep : ∀ s t a s', R s t → ok a → keep a = true → M.step s a = some s' →
      ∃ t', M.step t a = some t' ∧ R s' t')
    (hkeep' : ∀ s t a t', R s t → ok a → keep a = true → M.step t a = some t' →
      ∃ s', M.step s a = some s' ∧ R s' t')
    (homit : ∀ s t a, R s t → keep a = false → ∃ s', M.step s a = some s' ∧ R s' t)
    {s t : S} {as : List A} (hR : R s t) (hok : ∀ a ∈ as, ok a) :
    (∀ s', M.run s as = some s' → ∃ t', M.run t (as.filter keep) = some t' ∧ R s' t') ∧
      ∀ t', M.run t (as.filter keep) = some t' → ∃ s', M.run s as = some s' ∧ R s' t' := by
  induction as generalizing s t with
  | nil =>
      refine ⟨?_, ?_⟩
      · rintro s' ⟨⟩
        exact ⟨t, rfl, hR⟩
      · rintro t' ⟨⟩
        exact ⟨s, rfl, hR⟩
  | cons a as ih =>
      have ha := hok a (List.mem_cons_self ..)
      have has : ∀ b ∈ as, ok b := fun b hb => hok b (List.mem_cons_of_mem _ hb)
      cases hk : keep a with
      | true =>
          rw [List.filter_cons_of_pos hk]
          refine ⟨fun s' hr => ?_, fun t' hr => ?_⟩
          · obtain ⟨u, hu, hr⟩ := Option.bind_eq_some_iff.mp hr
            obtain ⟨v, hv, hR'⟩ := hkeep s t a u hR ha hk hu
            rw [run_cons_of_step M hv]
            exact (ih hR' has).1 s' hr
          · obtain ⟨v, hv, hr⟩ := Option.bind_eq_some_iff.mp hr
            obtain ⟨u, hu, hR'⟩ := hkeep' s t a v hR ha hk hv
            rw [run_cons_of_step M hu]
            exact (ih hR' has).2 t' hr
      | false =>
          obtain ⟨u, hu, hR'⟩ := homit s t a hR hk
          rw [List.filter_cons_of_neg (by simp [hk]), run_cons_of_step M hu]
          exact ih hR' has

end Wagonet.Library.Machine
