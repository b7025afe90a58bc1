import Mathlib

/-!
Suspended computations.

A `Task` is what an asynchronous function is to its executor: it has
finished, or it waits for the answer to one operation and knows how to go
on with it. Every suspension point shows the persistent state `σ` as it
would be left behind if the task were dropped there and then: this is how
the cancellation of a future is modelled, since its locals disappear and
what it has done to its owner does not.

`Async` is the monad of functions that return such tasks, take the
persistent state along and may end in an error. `Timed` is the shape of
the interfaces used with it: an operation is awaited inside a stack of
timers, and a timer that runs out answers in the place of the operation.
-/

namespace Wagonet.Library

/-- The operations a task can perform and the type of the answer to each. -/
structure Interface where
  Op : Type
  Reply : Op → Type

/-- The interface without operations. -/
@[reducible] def Interface.empty : Interface where
  Op := Empty
  Reply _ := Empty

/-- An operation together with the answer it got. -/
structure Interface.Event (I : Interface) where
  op : I.Op
  reply : I.Reply op

/-- A computation that has ended or is suspended at an operation of `I`. -/
inductive Task (I : Interface) (σ α : Type) : Type
  | done (s : σ) (a : α)
  | await (s : σ) (o : I.Op) (k : I.Reply o → Task I σ α)

namespace Task

variable {I J : Interface} {σ τ α β γ : Type}

/-- Sequencing: go on with `f` where the task ends. -/
def bind : Task I σ α → (σ → α → Task I σ β) → Task I σ β
  | .done s a, f => f s a
  | .await s o k, f => .await s o fun r => (k r).bind f

@[simp] theorem bind_done (s : σ) (a : α) (f : σ → α → Task I σ β) :
    (Task.done s a : Task I σ α).bind f = f s a := rfl

@[simp] theorem bind_await (s : σ) (o : I.Op) (k : I.Reply o → Task I σ α)
    (f : σ → α → Task I σ β) :
    (Task.await s o k).bind f = .await s o fun r => (k r).bind f := rfl

theorem bind_assoc (t : Task I σ α) (f : σ → α → Task I σ β) (g : σ → β → Task I σ γ) :
    (t.bind f).bind g = t.bind fun s a => (f s a).bind g := by
  induction t with
  | done s a => rfl
  | await s o k ih => exact congrArg _ (funext fun r => ih r)

/-- The persistent state the task would leave behind if it were dropped. -/
def left : Task I σ α → σ
  | .done s _ => s
  | .await s _ _ => s

/-- Run a task written for `I` and the state `σ` where the operations are those
of `J` and `σ` is only a part of the state. -/
def embed (op : I.Op → J.Op) (reply : ∀ o, J.Reply (op o) → I.Reply o) (put : σ → τ) :
    Task I σ α → Task J τ α
  | .done s a => .done (put s) a
  | .await s o k => .await (put s) (op o) fun r => (k (reply o r)).embed op reply put

/-- A complete run: the operations performed with their answers, and the end. -/
inductive Run : Task I σ α → List I.Event → σ → α → Prop
  | done {s : σ} {a : α} : Run (.done s a) [] s a
  | await {s s' : σ} {o : I.Op} {k : I.Reply o → Task I σ α} {r : I.Reply o}
      {es : List I.Event} {a : α} :
      Run (k r) es s' a → Run (.await s o k) (⟨o, r⟩ :: es) s' a

/-- Check that the events are those of a complete run, and compute its end. -/
def replay [DecidableEq I.Op] : Task I σ α → List I.Event → Option (σ × α)
  | .done s a, [] => some (s, a)
  | .await _ o k, ⟨o', r⟩ :: es => if h : o' = o then (k (h ▸ r)).replay es else none
  | _, _ => none

theorem run_of_replay [DecidableEq I.Op] {t : Task I σ α} {es : List I.Event} {s' : σ} {a : α}
    (h : t.replay es = some (s', a)) : t.Run es s' a := by
  induction t generalizing es with
  | done s b =>
      cases es with
      | nil =>
          cases h
          exact .done
      | cons e es => cases h
  | await s o k ih =>
      cases es with
      | nil => cases h
      | cons e es =>
          obtain ⟨o', r⟩ := e
          simp only [replay] at h
          split at h
          · rename_i ho
            subst ho
            exact .await (ih r h)
          · cases h

theorem exists_run_of_replay [DecidableEq I.Op] {t : Task I σ α} {es : List I.Event}
    (h : (t.replay es).isSome = true) : ∃ s' a, t.Run es s' a := by
  obtain ⟨⟨s', a⟩, hr⟩ := Option.isSome_iff_exists.mp h
  exact ⟨s', a, run_of_replay hr⟩

/-- The same for a run that succeeds. -/
theorem exists_run_ok_of_replay [DecidableEq I.Op] {ε : Type} {t : Task I σ (Except ε α)}
    {es : List I.Event} (h : (t.replay es).any (·.2.isOk) = true) :
    ∃ s' a, t.Run es s' (.ok a) := by
  obtain ⟨⟨s', r⟩, hr, hok⟩ := (Option.any_eq_true _ _).mp h
  match r with
  | .ok a => exact ⟨s', a, run_of_replay hr⟩
  | .error e => cases hok

/-- The beginning of a run: the task that remains after some operations. -/
inductive Partial : Task I σ α → List I.Event → Task I σ α → Prop
  | refl {t : Task I σ α} : Partial t [] t
  | step {s : σ} {o : I.Op} {k : I.Reply o → Task I σ α} {t : Task I σ α}
      {es : List I.Event} (r : I.Reply o) :
      Partial t es (.await s o k) → Partial t (es ++ [⟨o, r⟩]) (k r)

@[simp] theorem run_done_iff {s s' : σ} {a a' : α} {es : List I.Event} :
    (Task.done s a : Task I σ α).Run es s' a' ↔ es = [] ∧ s' = s ∧ a' = a := by
  constructor
  · rintro ⟨⟩
    exact ⟨rfl, rfl, rfl⟩
  · rintro ⟨rfl, rfl, rfl⟩
    exact .done

theorem run_await_iff {s s' : σ} {o : I.Op} {k : I.Reply o → Task I σ α} {a : α}
    {es : List I.Event} :
    (Task.await s o k).Run es s' a ↔ ∃ r es', es = ⟨o, r⟩ :: es' ∧ (k r).Run es' s' a := by
  constructor
  · rintro (_ | h)
    exact ⟨_, _, rfl, h⟩
  · rintro ⟨r, es', rfl, h⟩
    exact .await h

/-- A run of a sequence is a run of its first part followed by one of the second. -/
theorem run_bind_iff {t : Task I σ α} {f : σ → α → Task I σ β} {es : List I.Event}
    {s' : σ} {b : β} :
    (t.bind f).Run es s' b ↔
      ∃ es₁ es₂ s a, es = es₁ ++ es₂ ∧ t.Run es₁ s a ∧ (f s a).Run es₂ s' b := by
  induction t generalizing es with
  | done s a =>
      constructor
      · intro h
        exact ⟨[], es, s, a, rfl, .done, h⟩
      · rintro ⟨es₁, es₂, s₁, a₁, rfl, h₁, h₂⟩
        obtain ⟨rfl, rfl, rfl⟩ := run_done_iff.mp h₁
        exact h₂
  | await s o k ih =>
      rw [bind_await, run_await_iff]
      constructor
      · rintro ⟨r, es', rfl, h⟩
        obtain ⟨es₁, es₂, s₁, a, rfl, h₁, h₂⟩ := (ih r).mp h
        exact ⟨⟨o, r⟩ :: es₁, es₂, s₁, a, rfl, .await h₁, h₂⟩
      · rintro ⟨es₁, es₂, s₁, a, rfl, h₁, h₂⟩
        obtain ⟨r, es', rfl, hk⟩ := run_await_iff.mp h₁
        exact ⟨r, es' ++ es₂, rfl, (ih r).mpr ⟨es', es₂, s₁, a, rfl, hk, h₂⟩⟩

theorem partial_nil_iff {t t' : Task I σ α} : t.Partial [] t' ↔ t' = t := by
  constructor
  · intro h
    generalize hes : ([] : List I.Event) = es at h
    cases h with
    | refl => rfl
    | step r h => simp at hes
  · rintro rfl
    exact .refl

/-- The beginning of a run and a complete run of what remains make a complete run. -/
theorem Partial.run {t t' : Task I σ α} {es es' : List I.Event} {s' : σ} {a : α}
    (h : t.Partial es t') (h' : t'.Run es' s' a) : t.Run (es ++ es') s' a := by
  induction h generalizing es' with
  | refl => exact h'
  | step r _ ih => simpa using ih (.await h')

/-- Every operation the task may perform satisfies `P`. -/
def Uses (P : I.Op → Prop) : Task I σ α → Prop
  | .done _ _ => True
  | .await _ o k => P o ∧ ∀ r, (k r).Uses P

theorem Uses.bind {P : I.Op → Prop} {t : Task I σ α} {f : σ → α → Task I σ β} (ht : t.Uses P)
    (hf : ∀ s a, (f s a).Uses P) : (t.bind f).Uses P := by
  induction t with
  | done s a => exact hf s a
  | await s o k ih => exact ⟨ht.1, fun r => ih r (ht.2 r)⟩

theorem Uses.run {P : I.Op → Prop} {t : Task I σ α} {es : List I.Event} {s' : σ} {a : α}
    (ht : t.Uses P) (h : t.Run es s' a) : ∀ e ∈ es, P e.op := by
  induction h with
  | done => exact nofun
  | await _ ih =>
      intro e he
      rcases List.mem_cons.mp he with rfl | he
      · exact ht.1
      · exact ih (ht.2 _) e he

end Task

/-- Functions that take the persistent state along, may suspend, and may fail. -/
def Async (I : Interface) (σ ε α : Type) : Type := σ → Task I σ (Except ε α)

namespace Async

variable {I : Interface} {σ ε ε' α β : Type}

protected def bind (m : Async I σ ε α) (f : α → Async I σ ε β) : Async I σ ε β :=
  fun s => (m s).bind fun s' r =>
    match r with
    | .ok a => f a s'
    | .error e => .done s' (.error e)

instance : Monad (Async I σ ε) where
  pure a := fun s => .done s (.ok a)
  bind := Async.bind

/-- Return an error to the caller. -/
def fail (e : ε) : Async I σ ε α := fun s => .done s (.error e)

def get : Async I σ ε σ := fun s => .done s (.ok s)

def modify (f : σ → σ) : Async I σ ε Unit := fun s => .done (f s) (.ok ())

/-- Return the caller's value or its error as a value. -/
def attempt (m : Async I σ ε α) : Async I σ ε' (Except ε α) :=
  fun s => (m s).bind fun s' r => .done s' (.ok r)

/-- Return a value computed by a fallible pure function. -/
def ofExcept (r : Except ε α) : Async I σ ε α := fun s => .done s r

theorem bind_assoc {γ : Type} (m : Async I σ ε α) (f : α → Async I σ ε β)
    (g : β → Async I σ ε γ) : m >>= f >>= g = m >>= fun a => f a >>= g := by
  funext s
  refine (Task.bind_assoc (m s) _ _).trans (congrArg _ ?_)
  funext s' r
  cases r <;> rfl

theorem pure_bind (a : α) (f : α → Async I σ ε β) : pure a >>= f = f a := rfl

theorem bind_apply (m : Async I σ ε α) (f : α → Async I σ ε β) (s : σ) :
    (m >>= f) s = (m s).bind fun s' r =>
      match r with
      | .ok a => f a s'
      | .error e => .done s' (.error e) := rfl

/-- A sequence waits where its first part does. -/
theorem bind_await {m : Async I σ ε α} {s s₁ : σ} {o : I.Op}
    {k : I.Reply o → Task I σ (Except ε α)} (h : m s = .await s₁ o k) (f : α → Async I σ ε β) :
    ∃ k', (m >>= f) s = .await s₁ o k' := by
  rw [bind_apply, h, Task.bind_await]
  exact ⟨_, rfl⟩

/-- A run of a sequence: the first part fails and ends it, or the second part
starts where the first has ended. -/
theorem run_bind_iff {m : Async I σ ε α} {f : α → Async I σ ε β} {s s' : σ}
    {es : List I.Event} {r : Except ε β} :
    ((m >>= f) s).Run es s' r ↔
      (∃ e, r = .error e ∧ (m s).Run es s' (.error e)) ∨
        ∃ es₁ es₂ s₁ a, es = es₁ ++ es₂ ∧ (m s).Run es₁ s₁ (.ok a) ∧ (f a s₁).Run es₂ s' r := by
  rw [bind_apply, Task.run_bind_iff]
  constructor
  · rintro ⟨es₁, es₂, s₁, a | a, rfl, h₁, h₂⟩
    · obtain ⟨rfl, rfl, rfl⟩ := Task.run_done_iff.mp h₂
      exact .inl ⟨a, rfl, by simpa using h₁⟩
    · exact .inr ⟨es₁, es₂, s₁, a, rfl, h₁, h₂⟩
  · rintro (⟨e, rfl, h⟩ | ⟨es₁, es₂, s₁, a, rfl, h₁, h₂⟩)
    · exact ⟨es, [], s', .error e, by simp, h, .done⟩
    · exact ⟨es₁, es₂, s₁, .ok a, rfl, h₁, h₂⟩

/-- The run of a first part that succeeds, followed by one of the second. -/
theorem run_bind {m : Async I σ ε α} {f : α → Async I σ ε β} {s s₁ s' : σ}
    {es₁ es₂ : List I.Event} {a : α} {r : Except ε β} (h₁ : (m s).Run es₁ s₁ (.ok a))
    (h₂ : (f a s₁).Run es₂ s' r) : ((m >>= f) s).Run (es₁ ++ es₂) s' r :=
  run_bind_iff.mpr (.inr ⟨es₁, es₂, s₁, a, rfl, h₁, h₂⟩)

theorem attempt_run_iff {m : Async I σ ε α} {s s' : σ} {es : List I.Event}
    {r : Except ε' (Except ε α)} :
    (attempt m s).Run es s' r ↔ ∃ r₁, r = .ok r₁ ∧ (m s).Run es s' r₁ := by
  simp only [attempt, Task.run_bind_iff, Task.run_done_iff]
  constructor
  · rintro ⟨es₁, es₂, s₁, r₁, rfl, h, rfl, rfl, rfl⟩
    exact ⟨r₁, rfl, by simpa using h⟩
  · rintro ⟨r₁, rfl, h⟩
    exact ⟨es, [], s', r₁, by simp, h, rfl, rfl, rfl⟩

/-! The steps of a function that do not suspend. -/

@[simp] theorem pure_apply (a : α) (s : σ) : (pure a : Async I σ ε α) s = .done s (.ok a) := rfl

@[simp] theorem fail_apply (e : ε) (s : σ) :
    (fail e : Async I σ ε α) s = .done s (.error e) := rfl

@[simp] theorem pure_bind_apply (a : α) (f : α → Async I σ ε β) (s : σ) :
    ((pure a : Async I σ ε α) >>= f) s = f a s := rfl

@[simp] theorem fail_bind_apply (e : ε) (f : α → Async I σ ε β) (s : σ) :
    ((fail e : Async I σ ε α) >>= f) s = .done s (.error e) := rfl

@[simp] theorem get_bind_apply (f : σ → Async I σ ε β) (s : σ) :
    ((get : Async I σ ε σ) >>= f) s = f s s := rfl

@[simp] theorem modify_bind_apply (g : σ → σ) (f : Unit → Async I σ ε β) (s : σ) :
    ((modify g : Async I σ ε Unit) >>= f) s = f () (g s) := rfl

@[simp] theorem modify_apply (g : σ → σ) (s : σ) :
    (modify g : Async I σ ε Unit) s = .done (g s) (.ok ()) := rfl

theorem ofExcept_ok_bind_apply (a : α) (f : α → Async I σ ε β) (s : σ) :
    ((ofExcept (.ok a) : Async I σ ε α) >>= f) s = f a s := rfl

theorem ofExcept_error_bind_apply (e : ε) (f : α → Async I σ ε β) (s : σ) :
    ((ofExcept (.error e) : Async I σ ε α) >>= f) s = .done s (.error e) := rfl

/-- Every operation the function may perform satisfies `P`. -/
def Uses (P : I.Op → Prop) (m : Async I σ ε α) : Prop := ∀ s, (m s).Uses P

section

variable {P : I.Op → Prop}

theorem Uses.bind {m : Async I σ ε α} {f : α → Async I σ ε β} (hm : m.Uses P)
    (hf : ∀ a, (f a).Uses P) : (m >>= f).Uses P := by
  refine fun s => (hm s).bind fun s' r => ?_
  match r with
  | .ok a => exact hf a s'
  | .error e => trivial

theorem uses_pure (a : α) : (pure a : Async I σ ε α).Uses P := fun _ => trivial

theorem uses_fail (e : ε) : (fail e : Async I σ ε α).Uses P := fun _ => trivial

theorem uses_get : (get : Async I σ ε σ).Uses P := fun _ => trivial

theorem uses_modify (f : σ → σ) : (modify f : Async I σ ε Unit).Uses P := fun _ => trivial

theorem uses_ofExcept (r : Except ε α) : (ofExcept r : Async I σ ε α).Uses P := fun _ => trivial

end

end Async

/-- Operations of `A` are awaited inside the timers `timers`, outermost first;
operations of `C` are not timed. -/
inductive TimedOp (τ : Type) (A C : Interface)
  | wait (timers : List τ) (a : A.Op)
  | call (c : C.Op)

instance [DecidableEq τ] [DecidableEq A.Op] [DecidableEq C.Op] : DecidableEq (TimedOp τ A C)
  | .wait ts a, .wait ts' a' => decidable_of_iff (ts = ts' ∧ a = a') (by simp)
  | .call c, .call c' => decidable_of_iff (c = c') (by simp)
  | .wait _ _, .call _ => .isFalse nofun
  | .call _, .wait _ _ => .isFalse nofun

/-- The answer to a timed operation is that of the operation, or the index of the
timer that ran out. -/
@[reducible] def TimedOp.Reply {τ : Type} {A C : Interface} : TimedOp τ A C → Type
  | .wait timers a => Fin timers.length ⊕ A.Reply a
  | .call c => C.Reply c

@[reducible] def Timed (τ : Type) (A C : Interface) : Interface where
  Op := TimedOp τ A C
  Reply := TimedOp.Reply

variable {τ σ ε ε' α β : Type} {A C : Interface}

/-- Run the task inside one more timer; `none` when that timer runs out, in which
case the rest of the task is dropped. -/
def Task.timeout (t : τ) : Task (Timed τ A C) σ α → Task (Timed τ A C) σ (Option α)
  | .done s a => .done s (some a)
  | .await s (.wait ts a) k => .await s (.wait (t :: ts) a) fun r =>
      match r with
      | .inl ⟨0, _⟩ => .done s none
      | .inl ⟨i + 1, h⟩ => (k (.inl ⟨i, Nat.lt_of_succ_lt_succ h⟩)).timeout t
      | .inr r => (k (.inr r)).timeout t
  | .await s (.call c) k => .await s (.call c) fun r => (k r).timeout t

/-- The call that an event is, if it is one. -/
def Interface.Event.calls : (Timed τ A C).Event → List C.Event
  | ⟨.wait _ _, _⟩ => []
  | ⟨.call c, r⟩ => [⟨c, r⟩]

/-- The calls of a run, with their answers. -/
def callsOf (es : List (Timed τ A C).Event) : List C.Event := es.flatMap (·.calls)

@[simp] theorem callsOf_nil : callsOf ([] : List (Timed τ A C).Event) = [] := rfl

@[simp] theorem callsOf_wait {ts : List τ} {a : A.Op}
    {r : Interface.Reply (Timed τ A C) (.wait ts a)} (es : List (Timed τ A C).Event) :
    callsOf (⟨.wait ts a, r⟩ :: es) = callsOf es := rfl

@[simp] theorem callsOf_call {c : C.Op} {r : Interface.Reply (Timed τ A C) (.call c)}
    (es : List (Timed τ A C).Event) : callsOf (⟨.call c, r⟩ :: es) = ⟨c, r⟩ :: callsOf es := rfl

@[simp] theorem callsOf_append (es es' : List (Timed τ A C).Event) :
    callsOf (es ++ es') = callsOf es ++ callsOf es' := List.flatMap_append ..

/-- A run that ends before the timer runs out. -/
theorem Task.Run.timeout {t : Task (Timed τ A C) σ α} {es : List (Timed τ A C).Event} {s : σ}
    {a : α} (h : t.Run es s a) (T : τ) :
    ∃ es', (t.timeout T).Run es' s (some a) ∧ callsOf es' = callsOf es := by
  induction t generalizing es with
  | done s' b =>
      obtain ⟨rfl, rfl, rfl⟩ := run_done_iff.mp h
      exact ⟨[], .done, rfl⟩
  | await s' o k ih =>
      obtain ⟨r, es', rfl, hk⟩ := run_await_iff.mp h
      obtain ⟨es₁, h₁, hcalls⟩ := ih r hk
      cases o with
      | call c => exact ⟨⟨.call c, r⟩ :: es₁, .await h₁, by simp [hcalls]⟩
      | wait ts a =>
          rw [Task.timeout]
          match r with
          | .inl ⟨i, hi⟩ =>
              exact ⟨⟨.wait (T :: ts) a, .inl ⟨i + 1, Nat.succ_lt_succ hi⟩⟩ :: es₁, .await h₁,
                hcalls⟩
          | .inr r => exact ⟨⟨.wait (T :: ts) a, .inr r⟩ :: es₁, .await h₁, hcalls⟩

/-- The outermost timer around what is awaited is `T`, and it has run out. -/
def Interface.Event.lapses (T : τ) (e : (Timed τ A C).Event) : Prop :=
  match e with
  | ⟨.wait (t :: _) _, .inl ⟨0, _⟩⟩ => t = T
  | _ => False

/-- A timer tells of itself: it has run out if there is no result. -/
theorem Task.lapses_of_timeout_run {t : Task (Timed τ A C) σ α} {T : τ}
    {es : List (Timed τ A C).Event} {s : σ} {a : Option α} (h : (t.timeout T).Run es s a) :
    a = none ↔ ∃ e ∈ es, e.lapses T := by
  induction t generalizing es with
  | done s' b =>
      obtain ⟨rfl, rfl, rfl⟩ := run_done_iff.mp h
      simp
  | await s' o k ih =>
      cases o with
      | call c =>
          obtain ⟨r, es', rfl, hk⟩ := run_await_iff.mp h
          rw [ih r hk, List.exists_mem_cons_iff]
          exact ⟨.inr, fun hcase => hcase.resolve_left id⟩
      | wait ts o =>
          rw [Task.timeout] at h
          obtain ⟨r, es', rfl, hk⟩ := run_await_iff.mp h
          rw [List.exists_mem_cons_iff]
          match r with
          | .inl ⟨0, _⟩ =>
              obtain ⟨-, -, rfl⟩ := run_done_iff.mp hk
              exact ⟨fun _ => .inl rfl, fun _ => rfl⟩
          | .inl ⟨i + 1, hi⟩ =>
              rw [ih _ hk]
              exact ⟨.inr, fun hcase => hcase.resolve_left id⟩
          | .inr r =>
              rw [ih _ hk]
              exact ⟨.inr, fun hcase => hcase.resolve_left id⟩

/-- No other timer is the outermost. -/
theorem Task.eq_of_lapses {t : Task (Timed τ A C) σ α} {T T' : τ}
    {es : List (Timed τ A C).Event} {s : σ} {a : Option α} (h : (t.timeout T).Run es s a)
    {e : (Timed τ A C).Event} (he : e ∈ es) (hlapses : e.lapses T') : T = T' := by
  induction t generalizing es with
  | done s' b =>
      obtain ⟨rfl, rfl, rfl⟩ := run_done_iff.mp h
      cases he
  | await s' o k ih =>
      cases o with
      | call c =>
          obtain ⟨r, es', rfl, hk⟩ := run_await_iff.mp h
          rcases List.mem_cons.mp he with rfl | he
          · exact hlapses.elim
          · exact ih r hk he
      | wait ts o =>
          rw [Task.timeout] at h
          obtain ⟨r, es', rfl, hk⟩ := run_await_iff.mp h
          match r with
          | .inl ⟨0, _⟩ =>
              obtain ⟨rfl, -, -⟩ := run_done_iff.mp hk
              obtain rfl := List.mem_singleton.mp he
              exact hlapses
          | .inl ⟨i + 1, hi⟩ =>
              rcases List.mem_cons.mp he with rfl | he
              · exact hlapses.elim
              · exact ih _ hk he
          | .inr r =>
              rcases List.mem_cons.mp he with rfl | he
              · exact hlapses.elim
              · exact ih _ hk he

namespace Async

/-- `timeout t m`: the result of `m`, or `none` when the timer runs out first. -/
def timeout (t : τ) (m : Async (Timed τ A C) σ ε α) :
    Async (Timed τ A C) σ ε' (Option (Except ε α)) :=
  fun s => ((m s).timeout t).bind fun s' r => .done s' (.ok r)

/-- What the caller of a timed function makes of its outcome. -/
def outcome (elapsed : ε') (conv : ε → ε') : Option (Except ε α) → Except ε' α
  | some (.ok a) => .ok a
  | some (.error e) => .error (conv e)
  | none => .error elapsed

/-- `m` inside a timer, as a function that fails with `elapsed` when the timer runs
out and converts the errors of `m`. -/
def within (t : τ) (elapsed : ε') (conv : ε → ε') (m : Async (Timed τ A C) σ ε α) :
    Async (Timed τ A C) σ ε' α :=
  fun s => ((m s).timeout t).bind fun s' r => .done s' (outcome elapsed conv r)

/-- Convert the errors of `m`. -/
def mapError (conv : ε → ε') (m : Async (Timed τ A C) σ ε α) : Async (Timed τ A C) σ ε' α :=
  fun s => (m s).bind fun s' r => .done s' (r.mapError conv)

/-- An operation awaited inside timers, whichever they are. -/
def Awaits : (Timed τ A C).Op → Prop
  | .wait _ _ => True
  | .call _ => False

theorem Awaits.timeout {t : τ} {m : Task (Timed τ A C) σ α} (h : m.Uses Awaits) :
    (m.timeout t).Uses Awaits := by
  induction m with
  | done s a => trivial
  | await s o k ih =>
      cases o with
      | wait ts a =>
          rw [Task.timeout]
          refine ⟨trivial, fun r => ?_⟩
          match r with
          | .inl ⟨0, _⟩ => trivial
          | .inl ⟨i + 1, hi⟩ => exact ih _ (h.2 _)
          | .inr r => exact ih _ (h.2 _)
      | call c => exact h.1.elim

theorem Awaits.within {t : τ} {elapsed : ε'} {conv : ε → ε'} {m : Async (Timed τ A C) σ ε α}
    (h : m.Uses Awaits) : (within t elapsed conv m).Uses Awaits :=
  fun s => (Awaits.timeout (h s)).bind fun _ _ => trivial

theorem Awaits.mapError {conv : ε → ε'} {m : Async (Timed τ A C) σ ε α} (h : m.Uses Awaits) :
    (mapError conv m).Uses Awaits :=
  fun s => (h s).bind fun _ _ => trivial

theorem mapError_run_iff {conv : ε → ε'} {m : Async (Timed τ A C) σ ε α} {s s' : σ}
    {es : List (Timed τ A C).Event} {r : Except ε' α} :
    (mapError conv m s).Run es s' r ↔ ∃ r₁, r = r₁.mapError conv ∧ (m s).Run es s' r₁ := by
  simp only [mapError, Task.run_bind_iff, Task.run_done_iff]
  constructor
  · rintro ⟨es₁, es₂, s₁, r₁, rfl, h, rfl, rfl, rfl⟩
    exact ⟨r₁, rfl, by simpa using h⟩
  · rintro ⟨r₁, rfl, h⟩
    exact ⟨es, [], s', r₁, by simp, h, rfl, rfl, rfl⟩

/-- Await an operation, at first inside no timer. -/
def wait (a : A.Op) : Async (Timed τ A C) σ ε (A.Reply a) :=
  fun s => .await s (.wait [] a) fun r =>
    match r with
    | .inl i => i.elim0
    | .inr r => .done s (.ok r)

/-- Perform an operation that is not timed. -/
def call (c : C.Op) : Async (Timed τ A C) σ ε (C.Reply c) :=
  fun s => .await s (.call c) fun r => .done s (.ok r)

theorem awaits_wait (a : A.Op) : (wait a : Async (Timed τ A C) σ ε (A.Reply a)).Uses Awaits := by
  refine fun s => ⟨trivial, fun r => ?_⟩
  match r with
  | .inl i => exact i.elim0
  | .inr r => trivial

theorem call_run_iff {c : C.Op} {s s' : σ} {es : List (Timed τ A C).Event}
    {r : Except ε (C.Reply c)} :
    (call c s).Run es s' r ↔
      ∃ reply, es = [⟨.call c, reply⟩] ∧ s' = s ∧ r = .ok reply := by
  rw [call, Task.run_await_iff]
  simp only [Task.run_done_iff]
  constructor
  · rintro ⟨reply, es', rfl, rfl, rfl, rfl⟩
    exact ⟨reply, rfl, rfl, rfl⟩
  · rintro ⟨reply, rfl, rfl, rfl⟩
    exact ⟨reply, [], rfl, rfl, rfl, rfl⟩

end Async

end Wagonet.Library
