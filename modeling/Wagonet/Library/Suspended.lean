import Wagonet.Library.Delivery

/-!
Tasks that are suspended at an operation.

A sequence is suspended in its first part, or in its second part after a complete run of
the first. A frame that is being read has sent nothing, and some of its bytes are missing.
-/

namespace Wagonet.Library

variable {τ σ ε α β : Type}

namespace Task

variable {I : Interface} {es : List I.Event} {s : σ} {o : I.Op}

theorem partial_done {a : α} {t : Task I σ α} (h : (done s a).Partial es t) :
    es = [] ∧ t = .done s a := by
  obtain ⟨t₀, ht⟩ : ∃ t₀ : Task I σ α, t₀ = .done s a := ⟨_, rfl⟩
  rw [← ht] at h
  induction h with
  | refl => exact ⟨rfl, ht⟩
  | step r _ ih =>
      obtain ⟨-, hawait⟩ := ih ht
      cases hawait

/-- What a task has done is nothing, or its first operation and more. -/
theorem partial_await {k : I.Reply o → Task I σ α} {t : Task I σ α}
    (h : (await s o k).Partial es t) :
    (es = [] ∧ t = .await s o k) ∨ ∃ r es', es = ⟨o, r⟩ :: es' ∧ (k r).Partial es' t := by
  obtain ⟨t₀, ht⟩ : ∃ t₀, t₀ = await s o k := ⟨_, rfl⟩
  rw [← ht] at h
  induction h with
  | refl => exact .inl ⟨rfl, ht⟩
  | step r _ ih =>
      rcases ih ht with ⟨rfl, hawait⟩ | ⟨r', es', rfl, hk⟩
      · cases hawait
        exact .inr ⟨r, [], rfl, .refl⟩
      · exact .inr ⟨r', _, rfl, hk.step r⟩

/-- A sequence that is suspended. -/
theorem partial_bind_await {t : Task I σ α} {f : σ → α → Task I σ β} {k : I.Reply o → Task I σ β}
    (h : (t.bind f).Partial es (.await s o k)) :
    (∃ k', t.Partial es (.await s o k')) ∨
      ∃ es₁ es₂ s₁ a, es = es₁ ++ es₂ ∧ t.Run es₁ s₁ a ∧
        (f s₁ a).Partial es₂ (.await s o k) := by
  induction t generalizing es with
  | done s₁ a => exact .inr ⟨[], es, s₁, a, rfl, .done, h⟩
  | await s₁ o₁ k₁ ih =>
      rcases partial_await h with ⟨rfl, hawait⟩ | ⟨r, es', rfl, hr⟩
      · cases hawait
        exact .inl ⟨k₁, .refl⟩
      · rcases ih r hr with ⟨k', hk'⟩ | ⟨es₁, es₂, s₂, a, rfl, hrun, hf⟩
        · exact .inl ⟨k', hk'.cons⟩
        · exact .inr ⟨⟨o₁, r⟩ :: es₁, es₂, s₂, a, rfl, .await hrun, hf⟩

/-- What a task has done, and what is left of it, is among the operations that it may
perform. -/
theorem Uses.begun {P : I.Op → Prop} {t t' : Task I σ α} (ht : t.Uses P)
    (h : t.Partial es t') : (∀ e ∈ es, P e.op) ∧ t'.Uses P := by
  induction h with
  | refl => exact ⟨nofun, ht⟩
  | step r _ ih =>
      obtain ⟨hall, ho, hk⟩ := ih ht
      refine ⟨fun e he => ?_, hk r⟩
      rcases List.mem_append.mp he with he | he
      · exact hall e he
      · obtain rfl := List.mem_singleton.mp he
        exact ho

end Task

/-- The same for a function that goes on only if its first part has succeeded. -/
theorem Async.partial_bind_await {I : Interface} {m : Async I σ ε α} {f : α → Async I σ ε β}
    {s s' : σ} {es : List I.Event} {o : I.Op} {k : I.Reply o → Task I σ (Except ε β)}
    (h : ((m >>= f) s).Partial es (.await s' o k)) :
    (∃ k', (m s).Partial es (.await s' o k')) ∨
      ∃ es₁ es₂ s₁ a, es = es₁ ++ es₂ ∧ (m s).Run es₁ s₁ (.ok a) ∧
        (f a s₁).Partial es₂ (.await s' o k) := by
  rcases Task.partial_bind_await h with hfirst | ⟨es₁, es₂, s₁, r, rfl, hrun, hf⟩
  · exact .inl hfirst
  · cases r with
    | ok a => exact .inr ⟨es₁, es₂, s₁, a, rfl, hrun, hf⟩
    | error e =>
        obtain ⟨-, hdone⟩ := Task.partial_done hf
        cases hdone

/-! ### Frames that are being read -/

section

variable {ι : Type} {C : Interface} {t : τ} {elapsed : ε} {conv : ι → ε} {s s' : σ}
  {es : List (Timed τ Stream C).Event} {o : (Timed τ Stream C).Op} {n : Nat}
  {fill : List UInt8 → σ → σ} {eof : Nat → ι} {io : IoError → ι}

theorem readLoop_timeout_suspended {fuel : Nat} {filled : List UInt8}
    {k : (Timed τ Stream C).Reply o → Task (Timed τ Stream C) σ (Option (Except ι (List UInt8)))}
    (h : ((readLoop n fill eof io fuel filled s : Task (Timed τ Stream C) σ _).timeout t).Partial
      es (.await s' o k)) :
    sent es = [] ∧ (filled ++ received es).length < n := by
  induction fuel generalizing filled s es with
  | zero =>
      obtain ⟨-, hdone⟩ := Task.partial_done h
      cases hdone
  | succ fuel ih =>
      rcases Nat.lt_or_ge filled.length n with hlt | hge
      · rw [readLoop_of_lt hlt, Task.timeout] at h
        rcases Task.partial_await h with ⟨rfl, -⟩ | ⟨reply, es', rfl, hk⟩
        · exact ⟨rfl, by simpa using hlt⟩
        clear h
        rcases reply with ⟨i, hi⟩ | e | chunk
        · obtain rfl : i = 0 := Nat.lt_one_iff.mp hi
          obtain ⟨-, hdone⟩ := Task.partial_done hk
          cases hdone
        · obtain ⟨-, hdone⟩ := Task.partial_done hk
          cases hdone
        · by_cases hc : chunk.val = []
          · simp only [hc, if_true] at hk
            obtain ⟨-, hdone⟩ := Task.partial_done hk
            cases hdone
          · simp only [hc, if_false] at hk
            obtain ⟨hsent, hlen⟩ := ih hk
            rw [List.append_assoc] at hlen
            exact ⟨hsent, hlen⟩
      · rw [readLoop_of_full hge] at h
        obtain ⟨-, hdone⟩ := Task.partial_done h
        cases hdone

/-- A frame is waited for only while bytes of it are missing. -/
theorem readLoop_within_suspended
    {k : (Timed τ Stream C).Reply o → Task (Timed τ Stream C) σ (Except ε (List UInt8))}
    (h : (Async.within (C := C) t elapsed conv (readLoop n fill eof io n []) s).Partial es
      (.await s' o k)) : sent es = [] ∧ (received es).length < n := by
  rcases Task.partial_bind_await h with ⟨k', hloop⟩ | ⟨es₁, es₂, s₁, r, rfl, -, hdone⟩
  · exact readLoop_timeout_suspended hloop
  · obtain ⟨-, hdone⟩ := Task.partial_done hdone
    cases hdone

end

end Wagonet.Library
