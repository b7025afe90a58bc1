import Wagonet.Library.Stream

/-!
What a program leaves alone.

A property of the persistent state that holds wherever a task may be dropped, and
where it ends. A function keeps a property if its tasks do so that start with it.
-/

namespace Wagonet.Library

variable {I : Interface} {σ ε ε' α β : Type} {P : σ → Prop}

/-- The property holds of every state that the task may leave behind. -/
def Task.Leaves (P : σ → Prop) : Task I σ α → Prop
  | .done s _ => P s
  | .await s _ k => P s ∧ ∀ r, (k r).Leaves P

theorem Task.leaves_of_forall {t : Task I σ α} (h : ∀ s, P s) : t.Leaves P := by
  induction t with
  | done s a => exact h s
  | await s o k ih => exact ⟨h s, ih⟩

theorem Task.Leaves.bind {t : Task I σ α} {f : σ → α → Task I σ β} (ht : t.Leaves P)
    (hf : ∀ s a, P s → (f s a).Leaves P) : (t.bind f).Leaves P := by
  induction t with
  | done s a => exact hf s a ht
  | await s o k ih => exact ⟨ht.1, fun r => ih r (ht.2 r)⟩

theorem Task.Leaves.of_begun {t t' : Task I σ α} {es : List I.Event} (h : t.Partial es t')
    (ht : t.Leaves P) : t'.Leaves P := by
  induction h with
  | refl => exact ht
  | step r _ ih => exact (ih ht).2 r

theorem Task.Leaves.of_run {t : Task I σ α} {es : List I.Event} {s : σ} {a : α}
    (ht : t.Leaves P) (h : t.Run es s a) : P s := by
  induction h with
  | done => exact ht
  | await _ ih => exact ih (ht.2 _)

theorem Task.Leaves.timeout {τ : Type} {A C : Interface} {T : τ} {t : Task (Timed τ A C) σ α}
    (ht : t.Leaves P) : (t.timeout T).Leaves P := by
  induction t with
  | done s a => exact ht
  | await s o k ih =>
      cases o with
      | call c => exact ⟨ht.1, fun r => ih r (ht.2 r)⟩
      | wait ts a =>
          rw [Task.timeout]
          refine ⟨ht.1, fun r => ?_⟩
          rcases r with ⟨_ | i, hi⟩ | r
          · exact ht.1
          · exact ih _ (ht.2 _)
          · exact ih _ (ht.2 _)

theorem Task.Leaves.left {t : Task I σ α} (h : t.Leaves P) : P t.left := by
  cases t with
  | done s a => exact h
  | await s o k => exact h.1

/-- A task that keeps the property, started where it holds. -/
def Async.Keeps (P : σ → Prop) (m : Async I σ ε α) : Prop := ∀ s, P s → (m s).Leaves P

namespace Async.Keeps

theorem bind {m : Async I σ ε α} {f : α → Async I σ ε β} (hm : m.Keeps P)
    (hf : ∀ a, (f a).Keeps P) : (m >>= f).Keeps P := by
  refine fun s hs => (hm s hs).bind fun s' r hs' => ?_
  match r with
  | .ok a => exact hf a s' hs'
  | .error e => exact hs'

theorem pure (a : α) : (Pure.pure a : Async I σ ε α).Keeps P := fun _ hs => hs

theorem fail (e : ε) : (Async.fail e : Async I σ ε α).Keeps P := fun _ hs => hs

theorem get : (Async.get : Async I σ ε σ).Keeps P := fun _ hs => hs

/-- Two changes of the state, between which nothing is awaited. -/
theorem modify_twice {f g : σ → σ} {m : Async I σ ε α} (h : ∀ s, P s → P (g (f s)))
    (hm : m.Keeps P) :
    (do Async.modify f; Async.modify g; m : Async I σ ε α).Keeps P := fun s hs => hm _ (h s hs)

theorem modify {f : σ → σ} (hf : ∀ s, P s → P (f s)) :
    (Async.modify f : Async I σ ε Unit).Keeps P := hf

theorem ofExcept (r : Except ε α) : (Async.ofExcept r : Async I σ ε α).Keeps P := fun _ hs => hs

theorem attempt {m : Async I σ ε α} (hm : m.Keeps P) :
    (Async.attempt m : Async I σ ε' _).Keeps P :=
  fun s hs => (hm s hs).bind fun _ _ hs' => hs'

section

variable {τ : Type} {A C : Interface}

theorem wait (a : A.Op) : (Async.wait a : Async (Timed τ A C) σ ε _).Keeps P := by
  refine fun s hs => ⟨hs, fun r => ?_⟩
  match r with
  | .inl i => exact i.elim0
  | .inr r => exact hs

theorem call (c : C.Op) : (Async.call c : Async (Timed τ A C) σ ε _).Keeps P :=
  fun _ hs => ⟨hs, fun _ => hs⟩

theorem timeout {T : τ} {m : Async (Timed τ A C) σ ε α} (hm : m.Keeps P) :
    (Async.timeout T m : Async (Timed τ A C) σ ε' _).Keeps P :=
  fun s hs => (hm s hs).timeout.bind fun _ _ hs' => hs'

theorem within {T : τ} {elapsed : ε'} {conv : ε → ε'} {m : Async (Timed τ A C) σ ε α}
    (hm : m.Keeps P) : (Async.within T elapsed conv m).Keeps P :=
  fun s hs => (hm s hs).timeout.bind fun _ _ hs' => hs'

theorem mapError {conv : ε → ε'} {m : Async (Timed τ A C) σ ε α} (hm : m.Keeps P) :
    (Async.mapError conv m).Keeps P :=
  fun s hs => (hm s hs).bind fun _ _ hs' => hs'

theorem readLoop {n fuel : Nat} {fill : List UInt8 → σ → σ} {eof : Nat → ε} {io : IoError → ε}
    {filled : List UInt8} (hfill : ∀ bs s, P s → P (fill bs s)) :
    (Library.readLoop n fill eof io fuel filled : Async (Timed τ Stream C) σ ε _).Keeps P := by
  induction fuel generalizing filled with
  | zero => exact .pure _
  | succ fuel ih =>
      unfold Library.readLoop
      split
      · refine (Keeps.wait _).bind fun r => ?_
        cases r with
        | error e => exact .fail _
        | ok chunk =>
            dsimp only
            split
            · exact .fail _
            · exact (Keeps.modify (hfill _)).bind fun _ => ih
      · exact .pure _

theorem writeLoop {fuel : Nat} {io : IoError → ε} {bytes : List UInt8} :
    (Library.writeLoop io fuel bytes : Async (Timed τ Stream C) σ ε _).Keeps P := by
  induction fuel generalizing bytes with
  | zero => exact .pure _
  | succ fuel ih =>
      unfold Library.writeLoop
      split
      · exact .pure _
      · refine (Keeps.wait _).bind fun r => ?_
        cases r with
        | error e => exact .fail _
        | ok n =>
            dsimp only
            split
            · exact .fail _
            · exact ih

theorem flushStream {io : IoError → ε} :
    (Library.flushStream io : Async (Timed τ Stream C) σ ε _).Keeps P := by
  refine (Keeps.wait _).bind fun r => ?_
  match r with
  | .error e => exact .fail _
  | .ok () => exact .pure _

end

end Async.Keeps

/-! ### Depending on the answers -/

/-- The property holds of every state that the task may leave behind, as long as the
answers to its operations are good. -/
def Task.Maintains (G : (o : I.Op) → I.Reply o → Prop) (P : σ → Prop) : Task I σ α → Prop
  | .done s _ => P s
  | .await s o k => P s ∧ ∀ r, G o r → (k r).Maintains G P

variable {G : (o : I.Op) → I.Reply o → Prop}

theorem Task.Leaves.maintains {t : Task I σ α} (h : t.Leaves P) : t.Maintains G P := by
  induction t with
  | done s a => exact h
  | await s o k ih => exact ⟨h.1, fun r _ => ih r (h.2 r)⟩

theorem Task.Maintains.left {t : Task I σ α} (h : t.Maintains G P) : P t.left := by
  cases t with
  | done s a => exact h
  | await s o k => exact h.1

theorem Task.Maintains.bind {t : Task I σ α} {f : σ → α → Task I σ β} (ht : t.Maintains G P)
    (hf : ∀ s a, P s → (f s a).Maintains G P) : (t.bind f).Maintains G P := by
  induction t with
  | done s a => exact hf s a ht
  | await s o k ih => exact ⟨ht.1, fun r hr => ih r (ht.2 r hr)⟩

/-- A task that maintains the property, started where it holds. -/
def Async.Maintains (G : (o : I.Op) → I.Reply o → Prop) (P : σ → Prop) (m : Async I σ ε α) :
    Prop := ∀ s, P s → (m s).Maintains G P

theorem Async.Keeps.maintains {m : Async I σ ε α} (h : m.Keeps P) : m.Maintains G P :=
  fun s hs => (h s hs).maintains

theorem Async.Maintains.bind {m : Async I σ ε α} {f : α → Async I σ ε β} (hm : m.Maintains G P)
    (hf : ∀ a, (f a).Maintains G P) : (m >>= f).Maintains G P := by
  refine fun s hs => (hm s hs).bind fun s' r hs' => ?_
  match r with
  | .ok a => exact hf a s' hs'
  | .error e => exact hs'

theorem Async.maintains_wait_bind {τ : Type} {A C : Interface} {P : σ → Prop}
    {G : (o : (Timed τ A C).Op) → (Timed τ A C).Reply o → Prop} {a : A.Op}
    {f : A.Reply a → Async (Timed τ A C) σ ε α} {s : σ} (hs : P s)
    (h : ∀ r, G (.wait [] a) (.inr r) → (f r s).Maintains G P) :
    ((Async.wait a >>= f) s).Maintains G P := by
  refine ⟨hs, fun r hr => ?_⟩
  match r with
  | .inl i => exact i.elim0
  | .inr r => exact h r hr

end Wagonet.Library
