import Wagonet.Library.Task

/-!
What a task may do, told by a state of its own.

A `Discipline` follows the operations of one task with a local state, and says
which operation is allowed in which of these states. That a program obeys it is
proved of the program alone; what holds when several of them run together is
then a matter of their local states and not of their code.
-/

namespace Wagonet.Library

/-- The rules for tasks that await operations of `A`, call operations of `C` and take a
persistent state of `σ` along. -/
structure Discipline (A C : Interface) (Q σ : Type) where
  /-- the operation may be awaited -/
  waits : Q → σ → A.Op → Prop
  waited : Q → (a : A.Op) → A.Reply a → Q
  /-- the operation may be called -/
  calls : Q → C.Op → Prop
  called : Q → (c : C.Op) → C.Reply c → Q
  /-- a timer may run out here -/
  timed : Q → σ → Prop
  lapsed : Q → Q

variable {A C : Interface} {Q τ σ ε ε' α β : Type}

/-- The task performs only what is allowed, starting in the state `q`, and ends with a
local and a persistent state and a result that satisfy `final`. -/
def Task.Obeys (D : Discipline A C Q σ) (final : Q → σ → α → Prop) :
    Task (Timed τ A C) σ α → Q → Prop
  | .done s a, q => final q s a
  | .await s (.wait ts a) k, q =>
      D.waits q s a ∧ (ts ≠ [] → D.timed q s) ∧ (∀ i, (k (.inl i)).Obeys D final (D.lapsed q)) ∧
        ∀ r, (k (.inr r)).Obeys D final (D.waited q a r)
  | .await _ (.call c) k, q => D.calls q c ∧ ∀ r, (k r).Obeys D final (D.called q c r)

/-- The rules for a task that runs inside a timer: it waits only where one may run out. -/
def Discipline.interruptible (D : Discipline A C Q σ) : Discipline A C Q σ :=
  { D with waits := fun q s a => D.waits q s a ∧ D.timed q s }

namespace Task.Obeys

variable {D : Discipline A C Q σ} {final : Q → σ → α → Prop} {q : Q}

theorem mono {final' : Q → σ → α → Prop} {t : Task (Timed τ A C) σ α} (h : t.Obeys D final q)
    (hfinal : ∀ q s a, final q s a → final' q s a) : t.Obeys D final' q := by
  induction t generalizing q with
  | done s a => exact hfinal q s a h
  | await s o k ih =>
      cases o with
      | wait ts a =>
          obtain ⟨ha, ht, hi, hr⟩ := h
          exact ⟨ha, ht, fun i => ih _ (hi i), fun r => ih _ (hr r)⟩
      | call c => exact ⟨h.1, fun r => ih _ (h.2 r)⟩

theorem bind {final : Q → σ → β → Prop} {t : Task (Timed τ A C) σ α}
    {f : σ → α → Task (Timed τ A C) σ β}
    (h : t.Obeys D (fun q s a => (f s a).Obeys D final q) q) : (t.bind f).Obeys D final q := by
  induction t generalizing q with
  | done s a => exact h
  | await s o k ih =>
      cases o with
      | wait ts a =>
          obtain ⟨ha, ht, hi, hr⟩ := h
          exact ⟨ha, ht, fun i => ih _ (hi i), fun r => ih _ (hr r)⟩
      | call c => exact ⟨h.1, fun r => ih _ (h.2 r)⟩

theorem of_interruptible {t : Task (Timed τ A C) σ α} (h : t.Obeys D.interruptible final q) :
    t.Obeys D final q := by
  induction t generalizing q with
  | done s a => exact h
  | await s o k ih =>
      cases o with
      | wait ts a =>
          obtain ⟨ha, ht, hi, hr⟩ := h
          exact ⟨ha.1, ht, fun i => ih _ (hi i), fun r => ih _ (hr r)⟩
      | call c => exact ⟨h.1, fun r => ih _ (h.2 r)⟩

/-- When the timer runs out, the task is dropped in a state where that may happen. -/
theorem timeout {T : τ} {final' : Q → σ → Option α → Prop}
    {t : Task (Timed τ A C) σ α} (h : t.Obeys D.interruptible final q)
    (hsome : ∀ q s a, final q s a → final' q s (some a))
    (hnone : ∀ q s, D.timed q s → final' (D.lapsed q) s none) :
    (t.timeout T).Obeys D.interruptible final' q := by
  induction t generalizing q with
  | done s a => exact hsome q s a h
  | await s o k ih =>
      cases o with
      | wait ts a =>
          obtain ⟨ha, ht, hi, hr⟩ := h
          rw [Task.timeout]
          refine ⟨ha, fun _ => ha.2, fun i => ?_, fun r => ih _ (hr r)⟩
          rcases i with ⟨_ | i, hlt⟩
          · exact hnone q s ha.2
          · exact ih _ (hi ⟨i, Nat.lt_of_succ_lt_succ hlt⟩)
      | call c => exact ⟨h.1, fun r => ih _ (h.2 r)⟩

end Task.Obeys

/-! ### The rules for functions -/

section

variable {D : Discipline A C Q σ} {q : Q} {s : σ}

theorem Async.obeys_bind {m : Async (Timed τ A C) σ ε α} {f : α → Async (Timed τ A C) σ ε β}
    {final : Q → σ → Except ε β → Prop}
    (h : (m s).Obeys D (fun q s' r =>
      match r with
      | .ok a => (f a s').Obeys D final q
      | .error e => final q s' (.error e)) q) : ((m >>= f) s).Obeys D final q := by
  refine Task.Obeys.bind (h.mono fun q' s' r hr => ?_)
  match r with
  | .ok a => exact hr
  | .error e => exact hr

@[simp] theorem Async.obeys_wait_bind {a : A.Op} {f : A.Reply a → Async (Timed τ A C) σ ε β}
    {final : Q → σ → Except ε β → Prop} :
    ((Async.wait a >>= f) s).Obeys D final q ↔
      D.waits q s a ∧ ∀ r, (f r s).Obeys D final (D.waited q a r) := by
  constructor
  · rintro ⟨ha, -, -, hr⟩
    exact ⟨ha, hr⟩
  · rintro ⟨ha, hr⟩
    exact ⟨ha, nofun, fun i => i.elim0, hr⟩

@[simp] theorem Async.obeys_call_bind {c : C.Op} {f : C.Reply c → Async (Timed τ A C) σ ε β}
    {final : Q → σ → Except ε β → Prop} :
    ((Async.call c >>= f) s).Obeys D final q ↔
      D.calls q c ∧ ∀ r, (f r s).Obeys D final (D.called q c r) := Iff.rfl

@[simp] theorem Async.obeys_call {c : C.Op} {final : Q → σ → Except ε (C.Reply c) → Prop} :
    (Async.call c s : Task (Timed τ A C) σ _).Obeys D final q ↔
      D.calls q c ∧ ∀ r, final (D.called q c r) s (.ok r) := Iff.rfl

@[simp] theorem Async.obeys_pure {a : α} {final : Q → σ → Except ε α → Prop} :
    ((pure a : Async (Timed τ A C) σ ε α) s).Obeys D final q ↔ final q s (.ok a) := Iff.rfl

@[simp] theorem Async.obeys_fail {e : ε} {final : Q → σ → Except ε α → Prop} :
    ((Async.fail e : Async (Timed τ A C) σ ε α) s).Obeys D final q ↔ final q s (.error e) :=
  Iff.rfl

@[simp] theorem Async.obeys_ofExcept {r : Except ε α} {final : Q → σ → Except ε α → Prop} :
    ((Async.ofExcept r : Async (Timed τ A C) σ ε α) s).Obeys D final q ↔ final q s r := Iff.rfl

/-- An operation awaited inside a timer of its own. -/
theorem Async.obeys_timeout_wait_bind {T : τ} {a : A.Op}
    {f : Option (Except ε (A.Reply a)) → Async (Timed τ A C) σ ε' β}
    {final : Q → σ → Except ε' β → Prop} (ha : D.waits q s a) (ht : D.timed q s)
    (hnone : (f none s).Obeys D final (D.lapsed q))
    (hsome : ∀ r, (f (some (.ok r)) s).Obeys D final (D.waited q a r)) :
    ((Async.timeout T (Async.wait a) >>= f) s).Obeys D final q := by
  rw [Async.bind_apply, Async.timeout, Async.wait, Task.timeout]
  refine ⟨ha, fun _ => ht, fun i => ?_, hsome⟩
  obtain rfl : i = ⟨0, Nat.one_pos⟩ := Fin.ext (Nat.lt_one_iff.mp i.isLt)
  exact hnone

/-- A function inside a timer. -/
theorem Async.obeys_within {T : τ} {elapsed : ε'} {conv : ε → ε'}
    {m : Async (Timed τ A C) σ ε α} {final : Q → σ → Except ε α → Prop}
    {final' : Q → σ → Except ε' α → Prop} (h : (m s).Obeys D.interruptible final q)
    (hsome : ∀ q s r, final q s r → final' q s (Async.outcome elapsed conv (some r)))
    (hnone : ∀ q s, D.timed q s → final' (D.lapsed q) s (.error elapsed)) :
    (Async.within T elapsed conv m s).Obeys D final' q := by
  have hinner : ((m s).timeout T).Obeys D.interruptible
      (fun q s r => final' q s (Async.outcome elapsed conv r)) q :=
    h.timeout hsome hnone
  exact Task.Obeys.bind hinner.of_interruptible

end

end Wagonet.Library
