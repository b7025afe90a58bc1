import Wagonet.Library.Discipline
import Wagonet.Library.Leaves

/-!
Which operations a program performs.

`Among W U` allows to await the operations of `W`, inside any timers, and to call those
of `U`. A program that stays among operations which a discipline always allows obeys
it, whatever the order in which it performs them.
-/

namespace Wagonet.Library

variable {τ σ ε ε' α β Q : Type} {A C : Interface}

/-- Operations of `W` awaited inside timers, whichever they are, and calls of `U`. -/
def TimedOp.Among (W : A.Op → Prop) (U : C.Op → Prop) : TimedOp τ A C → Prop
  | .wait _ a => W a
  | .call c => U c

/-- A task among these operations. -/
abbrev Task.Among (W : A.Op → Prop) (U : C.Op → Prop) (t : Task (Timed τ A C) σ α) : Prop :=
  t.Uses (TimedOp.Among W U)

abbrev Async.Among (W : A.Op → Prop) (U : C.Op → Prop) (m : Async (Timed τ A C) σ ε α) : Prop :=
  m.Uses (TimedOp.Among W U)

variable {W W' : A.Op → Prop} {U U' : C.Op → Prop}

theorem TimedOp.Among.mono {o : TimedOp τ A C} (hW : ∀ a, W a → W' a) (hU : ∀ c, U c → U' c)
    (h : o.Among W U) : o.Among W' U' := by
  cases o with
  | wait ts a => exact hW a h
  | call c => exact hU c h

theorem Task.Uses.mono {I : Interface} {P P' : I.Op → Prop} {t : Task I σ α} (ht : t.Uses P)
    (h : ∀ o, P o → P' o) : t.Uses P' := by
  induction t with
  | done s a => trivial
  | await s o k ih => exact ⟨h o ht.1, fun r => ih r (ht.2 r)⟩

namespace Async

theorem Uses.mono {I : Interface} {P P' : I.Op → Prop} {m : Async I σ ε α} (hm : m.Uses P)
    (h : ∀ o, P o → P' o) : m.Uses P' := fun s => (hm s).mono h

theorem among_wait {a : A.Op} (h : W a) :
    (wait a : Async (Timed τ A C) σ ε _).Among W U := by
  refine fun s => ⟨h, fun r => ?_⟩
  match r with
  | .inl i => exact i.elim0
  | .inr r => trivial

theorem among_call {c : C.Op} (h : U c) : (call c : Async (Timed τ A C) σ ε _).Among W U :=
  fun _ => ⟨h, fun _ => trivial⟩

end Async

theorem Task.among_timeout {T : τ} {t : Task (Timed τ A C) σ α} (h : t.Among W U) :
    (t.timeout T).Among W U := by
  induction t with
  | done s a => trivial
  | await s o k ih =>
      cases o with
      | call c => exact ⟨h.1, fun r => ih r (h.2 r)⟩
      | wait ts a =>
          rw [Task.timeout]
          refine ⟨h.1, fun r => ?_⟩
          rcases r with ⟨_ | i, hi⟩ | r
          · trivial
          · exact ih _ (h.2 _)
          · exact ih _ (h.2 _)

namespace Async

theorem among_timeout {T : τ} {m : Async (Timed τ A C) σ ε α} (h : m.Among W U) :
    (timeout T m : Async (Timed τ A C) σ ε' _).Among W U :=
  fun s => (Task.among_timeout (h s)).bind fun _ _ => trivial

theorem among_within {T : τ} {elapsed : ε'} {conv : ε → ε'} {m : Async (Timed τ A C) σ ε α}
    (h : m.Among W U) : (within T elapsed conv m).Among W U :=
  fun s => (Task.among_timeout (h s)).bind fun _ _ => trivial

theorem among_mapError {conv : ε → ε'} {m : Async (Timed τ A C) σ ε α} (h : m.Among W U) :
    (mapError conv m).Among W U :=
  fun s => (h s).bind fun _ _ => trivial

end Async

/-- A program among operations that the rules allow as long as `I` holds of the local
state, and that keep `I`, obeys the rules. -/
theorem Task.Obeys.of_among {D : Discipline A C Q σ} {final : Q → σ → α → Prop} {I : Q → Prop}
    {P : σ → Prop} {t : Task (Timed τ A C) σ α} {q : Q}
    (hwait : ∀ q s a, I q → P s → W a → D.waits q s a ∧ ∀ r, I (D.waited q a r))
    (htimed : ∀ q s a, I q → P s → W a → D.timed q s ∧ I (D.lapsed q))
    (hcall : ∀ q c, I q → U c → D.calls q c ∧ ∀ r, I (D.called q c r))
    (hfinal : ∀ q s a, I q → P s → final q s a) (ht : t.Among W U) (hleft : t.Leaves P)
    (hq : I q) : t.Obeys D final q := by
  induction t generalizing q with
  | done s a => exact hfinal q s a hq hleft
  | await s o k ih =>
      cases o with
      | wait ts a =>
          obtain ⟨hwaits, hwaited⟩ := hwait q s a hq hleft.1 ht.1
          obtain ⟨htime, hlapsed⟩ := htimed q s a hq hleft.1 ht.1
          exact ⟨hwaits, fun _ => htime, fun i => ih _ (ht.2 _) (hleft.2 _) hlapsed,
            fun r => ih _ (ht.2 _) (hleft.2 _) (hwaited r)⟩
      | call c =>
          obtain ⟨hcalls, hcalled⟩ := hcall q c hq ht.1
          exact ⟨hcalls, fun r => ih _ (ht.2 _) (hleft.2 _) (hcalled r)⟩

end Wagonet.Library
