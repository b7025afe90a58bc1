import Wagonet.Library.Stream

/-!
Programs that do the same and differ only in what they return.

Two tasks are alike if they perform the same operations whatever the answers are,
leave the same state wherever they are dropped, and return what a relation between
results allows. For functions that may fail the relation is one between their
errors; each way to build a function preserves it.
-/

namespace Wagonet.Library

variable {I : Interface} {σ α α' β β' : Type}

/-- The same operations and states, and related results. -/
inductive Task.Alike (R : α → α' → Prop) : Task I σ α → Task I σ α' → Prop
  | done {s : σ} {a : α} {a' : α'} : R a a' → Alike R (.done s a) (.done s a')
  | await {s : σ} {o : I.Op} {k : I.Reply o → Task I σ α} {k' : I.Reply o → Task I σ α'} :
      (∀ r, Alike R (k r) (k' r)) → Alike R (.await s o k) (.await s o k')

namespace Task.Alike

variable {R : α → α' → Prop} {t : Task I σ α} {t' : Task I σ α'}

theorem refl {R : α → α → Prop} (hR : ∀ a, R a a) (t : Task I σ α) : t.Alike R t := by
  induction t with
  | done s a => exact .done (hR a)
  | await s o k ih => exact .await ih

theorem bind {Q : β → β' → Prop} {f : σ → α → Task I σ β} {f' : σ → α' → Task I σ β'}
    (h : t.Alike R t') (hf : ∀ s a a', R a a' → (f s a).Alike Q (f' s a')) :
    (t.bind f).Alike Q (t'.bind f') := by
  induction h with
  | done hR => exact hf _ _ _ hR
  | await _ ih => exact .await ih

/-- A run of one is a run of the other, up to what is returned. -/
theorem run {es : List I.Event} {s : σ} {a : α} (h : t.Alike R t') (hrun : t.Run es s a) :
    ∃ a', t'.Run es s a' ∧ R a a' := by
  induction h generalizing es with
  | done hR =>
      obtain ⟨rfl, rfl, rfl⟩ := Task.run_done_iff.mp hrun
      exact ⟨_, .done, hR⟩
  | await _ ih =>
      obtain ⟨r, es', rfl, hr⟩ := Task.run_await_iff.mp hrun
      obtain ⟨a', hr', hR⟩ := ih r hr
      exact ⟨a', .await hr', hR⟩

theorem symm (h : t.Alike R t') : t'.Alike (fun a' a => R a a') t := by
  induction h with
  | done hR => exact .done hR
  | await _ ih => exact .await ih

end Task.Alike

theorem Task.bind_done_right (t : Task I σ α) : t.bind (fun s a => .done s a) = t := by
  induction t with
  | done s a => rfl
  | await s o k ih => exact congrArg _ (funext fun r => ih r)

/-- The operations of a run determine how it ends. -/
theorem Task.Run.unique {t : Task I σ α} {es : List I.Event} {s s' : σ} {a a' : α}
    (h : t.Run es s a) (h' : t.Run es s' a') : s' = s ∧ a' = a := by
  induction h with
  | done =>
      obtain ⟨-, hs, ha⟩ := Task.run_done_iff.mp h'
      exact ⟨hs, ha⟩
  | await _ ih =>
      obtain ⟨r, es', hes, h'⟩ := Task.run_await_iff.mp h'
      cases hes
      exact ih h'

/-- The same value, or related errors. -/
inductive ExceptAlike {ε ε' : Type} (R : ε → ε' → Prop) : Except ε α → Except ε' α → Prop
  | ok (a : α) : ExceptAlike R (.ok a) (.ok a)
  | error {e : ε} {e' : ε'} : R e e' → ExceptAlike R (.error e) (.error e')

/-- Functions that differ in their errors only. -/
def Async.Alike {ε ε' : Type} (R : ε → ε' → Prop) (m : Async I σ ε α) (m' : Async I σ ε' α) :
    Prop :=
  ∀ s, (m s).Alike (ExceptAlike R) (m' s)

section

variable {τ : Type} {A C : Interface} {ε ε' ι ι' : Type} {R : ε → ε' → Prop}
  {Q : ι → ι' → Prop}

theorem Task.Alike.timeout {T : τ} {Q : α → α' → Prop} {t : Task (Timed τ A C) σ α}
    {t' : Task (Timed τ A C) σ α'} (h : t.Alike Q t') :
    (t.timeout T).Alike (Option.Rel Q) (t'.timeout T) := by
  induction h with
  | done hQ => exact .done (.some hQ)
  | await h ih =>
      rename_i s o k k'
      cases o with
      | call c =>
          simp only [Task.timeout]
          exact .await ih
      | wait ts a =>
          simp only [Task.timeout]
          refine .await fun r => ?_
          rcases r with ⟨_ | i, hi⟩ | r
          · exact .done .none
          · exact ih (.inl ⟨i, Nat.lt_of_succ_lt_succ hi⟩)
          · exact ih (.inr r)

namespace Async.Alike

theorem refl {R : ε → ε → Prop} (hR : ∀ e, R e e) (m : Async I σ ε α) : m.Alike R m := by
  refine fun s => Task.Alike.refl (fun r => ?_) (m s)
  match r with
  | .ok a => exact .ok a
  | .error e => exact .error (hR e)

theorem bind {m : Async I σ ε α} {m' : Async I σ ε' α} {f : α → Async I σ ε β}
    {f' : α → Async I σ ε' β} (h : m.Alike R m') (hf : ∀ a, (f a).Alike R (f' a)) :
    (m >>= f).Alike R (m' >>= f') := by
  refine fun s => (h s).bind fun s₁ r r' hr => ?_
  cases hr with
  | ok a => exact hf a s₁
  | error he => exact .done (.error he)

theorem pure (a : α) : (Pure.pure a : Async I σ ε α).Alike R (Pure.pure a) :=
  fun _ => .done (.ok a)

theorem fail {e : ε} {e' : ε'} (h : R e e') : (Async.fail e : Async I σ ε α).Alike R (.fail e') :=
  fun _ => .done (.error h)

theorem get : (Async.get : Async I σ ε σ).Alike R Async.get := fun s => .done (.ok s)

theorem modify (f : σ → σ) : (Async.modify f : Async I σ ε Unit).Alike R (Async.modify f) :=
  fun _ => .done (.ok ())

theorem ofExcept {r : Except ε α} {r' : Except ε' α} (h : ExceptAlike R r r') :
    (Async.ofExcept r : Async I σ ε α).Alike R (Async.ofExcept r') := fun _ => .done h

theorem wait (a : A.Op) :
    (Async.wait a : Async (Timed τ A C) σ ε (A.Reply a)).Alike R (Async.wait a) := by
  refine fun s => .await fun r => ?_
  match r with
  | .inl i => exact i.elim0
  | .inr r => exact .done (.ok r)

theorem within {T : τ} {elapsed : ε} {elapsed' : ε'} {conv : ι → ε} {conv' : ι' → ε'}
    {m : Async (Timed τ A C) σ ι α} {m' : Async (Timed τ A C) σ ι' α} (h : m.Alike Q m')
    (helapsed : R elapsed elapsed') (hconv : ∀ e e', Q e e' → R (conv e) (conv' e')) :
    (Async.within T elapsed conv m).Alike R (Async.within T elapsed' conv' m') := by
  refine fun s => ((h s).timeout (T := T)).bind fun s₁ r r' hr => ?_
  cases hr with
  | none => exact .done (.error helapsed)
  | some hr =>
      cases hr with
      | ok a => exact .done (.ok a)
      | error he => exact .done (.error (hconv _ _ he))

theorem mapError {conv : ι → ε} {conv' : ι' → ε'} {m : Async (Timed τ A C) σ ι α}
    {m' : Async (Timed τ A C) σ ι' α} (h : m.Alike Q m')
    (hconv : ∀ e e', Q e e' → R (conv e) (conv' e')) :
    (Async.mapError conv m).Alike R (Async.mapError conv' m') := by
  refine fun s => (h s).bind fun s₁ r r' hr => ?_
  cases hr with
  | ok a => exact .done (.ok a)
  | error he => exact .done (.error (hconv _ _ he))

/-- Errors that only one side converts. -/
theorem mapError_right {Q : ε → ι' → Prop} {conv' : ι' → ε'} {m : Async (Timed τ A C) σ ε α}
    {m' : Async (Timed τ A C) σ ι' α} (h : m.Alike Q m')
    (hconv : ∀ e e', Q e e' → R e (conv' e')) : m.Alike R (Async.mapError conv' m') := by
  intro s
  have hbind : (m s).bind (fun s' r => .done s' r) = m s := Task.bind_done_right _
  rw [← hbind]
  refine (h s).bind fun s₁ r r' hr => ?_
  cases hr with
  | ok a => exact .done (.ok a)
  | error he => exact .done (.error (hconv _ _ he))

/-- Reading a frame, with other errors. -/
theorem readLoop {n fuel : Nat} {fill : List UInt8 → σ → σ} {eof : Nat → ε} {eof' : Nat → ε'}
    {io : IoError → ε} {io' : IoError → ε'} {filled : List UInt8} (heof : ∀ k, R (eof k) (eof' k))
    (hio : ∀ e, R (io e) (io' e)) :
    (Library.readLoop n fill eof io fuel filled : Async (Timed τ Stream C) σ ε _).Alike R
      (Library.readLoop n fill eof' io' fuel filled) := by
  induction fuel generalizing filled with
  | zero => exact .pure _
  | succ fuel ih =>
      unfold Library.readLoop
      split
      · refine .bind (.wait _) fun r => ?_
        cases r with
        | error e => exact .fail (hio e)
        | ok chunk =>
            dsimp only
            split
            · exact .fail (heof _)
            · exact .bind (.modify _) fun _ => ih
      · exact .pure _

end Async.Alike

end

end Wagonet.Library
