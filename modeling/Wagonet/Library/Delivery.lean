import Wagonet.Library.Stream

/-!
Peers: one that delivers its bytes in chunks, and one that says nothing.

`Task.serve` answers the reads of a task from the chunks a peer delivers: each read
takes what it has room for off the front, and once no chunk is left a peer that has
closed its end answers with the end of the stream, while the task goes on waiting for
one that has not. A run is `Silent` if the peer takes everything that is written to it
and neither sends a byte nor closes its end, so that a read ends with a timer only.
-/

namespace Wagonet.Library

variable {τ σ α : Type} {C : Interface}

namespace Task

/-- How a task has ended, if it has. -/
def result {I : Interface} : Task I σ α → Option α
  | .done _ a => some a
  | .await _ _ _ => none

/-- Answer the reads with these chunks, as far as they are wanted: the task that remains
and the chunks that were not read. -/
def serve (closed : Bool) :
    Task (Timed τ Stream C) σ α → List (List UInt8) →
      Task (Timed τ Stream C) σ α × List (List UInt8)
  | .await _ (.wait _ (.read room)) k, chunk :: chunks =>
      serve closed (k (.inr (.ok ⟨chunk.take room, List.length_take_le room chunk⟩)))
        (if chunk.length ≤ room then chunks else chunk.drop room :: chunks)
  | .await s (.wait ts (.read room)) k, [] =>
      if closed then serve closed (k (.inr (.ok ⟨[], Nat.zero_le room⟩))) []
      else (.await s (.wait ts (.read room)) k, [])
  | t, chunks => (t, chunks)

theorem serve_done (closed : Bool) (s : σ) (a : α) (chunks : List (List UInt8)) :
    serve closed (.done s a : Task (Timed τ Stream C) σ α) chunks = (.done s a, chunks) := rfl

/-- One more operation in front of a run. -/
theorem Partial.cons {I : Interface} {s : σ} {o : I.Op} {k : I.Reply o → Task I σ α}
    {r : I.Reply o} {es : List I.Event} {t : Task I σ α} (h : (k r).Partial es t) :
    (Task.await s o k).Partial (⟨o, r⟩ :: es) t := by
  generalize ht : k r = t' at h
  induction h with
  | refl =>
      subst ht
      exact .step r .refl
  | step r' _ ih => exact .step r' (ih ht)

/-- The beginning of a run, and what is left of the task after it. -/
theorem Run.before {I : Interface} {t : Task I σ α} {es es' : List I.Event} {s : σ} {a : α}
    (h : t.Run (es ++ es') s a) : ∃ t', t.Partial es t' ∧ t'.Run es' s a := by
  induction es generalizing t with
  | nil => exact ⟨t, .refl, h⟩
  | cons e es ih =>
      cases t with
      | done s' b =>
          obtain ⟨hnil, -⟩ := run_done_iff.mp h
          cases hnil
      | await s' o k =>
          obtain ⟨r, es'', heq, hk⟩ := run_await_iff.mp h
          obtain ⟨rfl, rfl⟩ := List.cons.inj heq
          obtain ⟨t', hpartial, hrun⟩ := ih hk
          exact ⟨t', hpartial.cons, hrun⟩

theorem Partial.before {I : Interface} {t t'' : Task I σ α} {es es' : List I.Event}
    (h : t.Partial (es ++ es') t'') : ∃ t', t.Partial es t' := by
  generalize hall : es ++ es' = all at h
  induction h generalizing es' with
  | refl =>
      obtain ⟨rfl, -⟩ := List.append_eq_nil_iff.mp hall
      exact ⟨_, .refl⟩
  | step r h ih =>
      rcases List.eq_nil_or_concat es' with rfl | ⟨init, e, rfl⟩
      · rw [List.append_nil] at hall
        exact ⟨_, hall ▸ h.step r⟩
      · rw [List.concat_eq_append, ← List.append_assoc] at hall
        exact ih (List.append_inj' hall rfl).1

/-- The bytes of a chunk are those that fit and those that are left for later. -/
theorem flatten_left (room : Nat) (chunk : List UInt8) (chunks : List (List UInt8)) :
    chunk.take room ++ (if chunk.length ≤ room then chunks else chunk.drop room :: chunks).flatten =
      (chunk :: chunks).flatten := by
  split
  · rename_i hle
    rw [List.take_of_length_le hle, List.flatten_cons]
  · rw [List.flatten_cons, List.flatten_cons, ← List.append_assoc, List.take_append_drop]

theorem ne_nil_left {room : Nat} {chunk : List UInt8} {chunks : List (List UInt8)}
    (h : ∀ c ∈ chunk :: chunks, c ≠ []) :
    ∀ c ∈ (if chunk.length ≤ room then chunks else chunk.drop room :: chunks), c ≠ [] := by
  intro c hc
  split at hc
  · exact h c (.tail _ hc)
  · rename_i hlt
    cases hc with
    | head =>
        intro hnil
        exact hlt (List.drop_eq_nil_iff.mp hnil)
    | tail _ hc => exact h c (.tail _ hc)

/-- Serving is a way to run the task, and no byte is lost or read twice. -/
theorem partial_serve (closed : Bool) (t : Task (Timed τ Stream C) σ α)
    (chunks : List (List UInt8)) :
    ∃ es, t.Partial es (t.serve closed chunks).1 ∧ sent es = [] ∧
      received es ++ (t.serve closed chunks).2.flatten = chunks.flatten := by
  induction t generalizing chunks with
  | done s a => exact ⟨[], .refl, rfl, rfl⟩
  | await s o k ih =>
      match o, chunks with
      | .call c, _ => exact ⟨[], .refl, rfl, rfl⟩
      | .wait ts (.write bytes), _ => exact ⟨[], .refl, rfl, rfl⟩
      | .wait ts .flush, _ => exact ⟨[], .refl, rfl, rfl⟩
      | .wait ts (.read room), chunk :: chunks =>
          obtain ⟨es, hrun, hsent, hbytes⟩ :=
            ih (.inr (.ok ⟨chunk.take room, List.length_take_le room chunk⟩))
              (if chunk.length ≤ room then chunks else chunk.drop room :: chunks)
          refine ⟨_, hrun.cons, ?_, ?_⟩
          · rw [sent_cons, hsent]
            rfl
          · rw [received_cons, List.append_assoc]
            exact (congrArg (chunk.take room ++ ·) hbytes).trans (flatten_left room chunk chunks)
      | .wait ts (.read room), [] =>
          cases closed with
          | false => exact ⟨[], .refl, rfl, rfl⟩
          | true =>
              obtain ⟨es, hrun, hsent, hbytes⟩ := ih (.inr (.ok ⟨[], Nat.zero_le room⟩)) []
              refine ⟨_, hrun.cons, ?_, ?_⟩
              · rw [sent_cons, hsent]
                rfl
              · rw [received_cons]
                exact hbytes

end Task

/-! ### A silent peer -/

/-- The operation waits for a byte from the peer. -/
def StreamOp.listens : StreamOp → Bool
  | .read _ => true
  | _ => false

/-- The answers of a peer that takes something of what it is offered and sends nothing. -/
def StreamOp.Heard : (o : StreamOp) → o.Reply → Prop
  | .write _, .ok n => 0 < n.val
  | .flush, .ok () => True
  | _, _ => False

def Interface.Event.Silent (e : (Timed τ Stream C).Event) : Prop :=
  match e with
  | ⟨.wait _ o, .inr r⟩ => o.Heard r
  | ⟨.wait _ o, .inl _⟩ => o.listens = true
  | ⟨.call _, _⟩ => True

/-- The peer took everything and was silent. -/
def Silent (es : List (Timed τ Stream C).Event) : Prop := ∀ e ∈ es, e.Silent

theorem silent_append {es es' : List (Timed τ Stream C).Event} :
    Silent (es ++ es') ↔ Silent es ∧ Silent es' := List.forall_mem_append

section

variable {ε ι : Type} {t : τ} {elapsed : ε} {conv : ι → ε} {s s' : σ}
  {es : List (Timed τ Stream C).Event}

/-- A silent peer reads all that is written to it. -/
theorem writeLoop_timeout_silent {fuel : Nat} {io : IoError → ι} {bytes : List UInt8}
    {r : Option (Except ι Unit)} (hfuel : bytes.length ≤ fuel)
    (h : ((writeLoop io fuel bytes s : Task (Timed τ Stream C) σ _).timeout t).Run es s' r)
    (hsilent : Silent es) : sent es = bytes ∧ s' = s ∧ r = some (.ok ()) := by
  induction fuel generalizing bytes es with
  | zero =>
      obtain rfl : bytes = [] := List.eq_nil_of_length_eq_zero (by omega)
      obtain ⟨rfl, rfl, rfl⟩ := Task.run_done_iff.mp h
      exact ⟨rfl, rfl, rfl⟩
  | succ fuel ih =>
      by_cases hb : bytes = []
      · subst hb
        obtain ⟨rfl, rfl, rfl⟩ := Task.run_done_iff.mp h
        exact ⟨rfl, rfl, rfl⟩
      · rw [writeLoop_of_ne_nil hb, Task.timeout, Task.run_await_iff] at h
        obtain ⟨reply, es', rfl, h⟩ := h
        have hfirst := hsilent _ (.head _)
        rcases reply with ⟨i, hi⟩ | e | n
        · obtain rfl : i = 0 := Nat.lt_one_iff.mp hi
          cases hfirst
        · cases hfirst
        · have hn : ¬n.val = 0 := Nat.ne_of_gt hfirst
          simp only [hn, if_false] at h
          obtain ⟨hsent, hs, hr⟩ :=
            ih (by rw [List.length_drop]; omega) h fun e he => hsilent e (.tail _ he)
          refine ⟨?_, hs, hr⟩
          rw [sent_cons, hsent]
          exact List.take_append_drop n.val bytes

/-- A frame is written to a silent peer. -/
theorem writeLoop_within_silent {io : IoError → ι} {bytes : List UInt8} {r : Except ε Unit}
    (h : (Async.within (C := C) t elapsed conv (writeLoop io bytes.length bytes) s).Run es s' r)
    (hsilent : Silent es) : sent es = bytes ∧ s' = s ∧ r = .ok () := by
  obtain ⟨es₁, es₂, s₁, o, rfl, h₁, h₂⟩ := Task.run_bind_iff.mp h
  obtain ⟨rfl, rfl, rfl⟩ := Task.run_done_iff.mp h₂
  obtain ⟨hsent, rfl, rfl⟩ :=
    writeLoop_timeout_silent (Nat.le_refl _) h₁ (silent_append.mp hsilent).1
  exact ⟨by rw [List.append_nil, hsent], rfl, rfl⟩

theorem flushStream_silent {io : IoError → ε} {r : Except ε Unit}
    (h : (flushStream io s : Task (Timed τ Stream C) σ _).Run es s' r) (hsilent : Silent es) :
    sent es = [] ∧ s' = s ∧ r = .ok () := by
  rw [flushStream_apply, Task.run_await_iff] at h
  obtain ⟨reply, es', rfl, h⟩ := h
  have hfirst := hsilent _ (.head _)
  match reply with
  | .inl i => exact i.elim0
  | .inr (.error e) => cases hfirst
  | .inr (.ok ()) =>
      obtain ⟨rfl, rfl, rfl⟩ := Task.run_done_iff.mp h
      exact ⟨rfl, rfl, rfl⟩

/-- A frame that a silent peer should send never comes. -/
theorem readLoop_within_silent {n : Nat} {fill : List UInt8 → σ → σ} {eof : Nat → ι}
    {io : IoError → ι} {r : Except ε (List UInt8)} (hn : 0 < n)
    (h : (Async.within (C := C) t elapsed conv (readLoop n fill eof io n []) s).Run es s' r)
    (hsilent : Silent es) : sent es = [] ∧ s' = s ∧ r = .error elapsed := by
  obtain ⟨m, rfl⟩ := Nat.exists_eq_add_of_lt hn
  rw [Nat.zero_add] at h
  rw [Async.within, readLoop_of_lt (Nat.succ_pos m), Task.timeout, Task.bind_await,
    Task.run_await_iff] at h
  obtain ⟨reply, es', rfl, h⟩ := h
  have hfirst := hsilent _ (.head _)
  rcases reply with ⟨i, hi⟩ | e | chunk
  · obtain rfl : i = 0 := Nat.lt_one_iff.mp hi
    obtain ⟨rfl, rfl, rfl⟩ := Task.run_done_iff.mp h
    exact ⟨rfl, rfl, rfl⟩
  · cases hfirst
  · cases hfirst

variable (t elapsed conv) in
theorem exists_silent_write (io : IoError → ι) {bytes : List UInt8} (hbytes : bytes ≠ []) (s : σ) :
    ∃ es, (Async.within (C := C) t elapsed conv (writeLoop io bytes.length bytes) s).Run es s
      (.ok ()) ∧ Silent es := by
  obtain ⟨m, hm⟩ := Nat.exists_eq_add_of_lt (List.length_pos_iff.mpr hbytes)
  rw [Nat.zero_add] at hm
  have hne : bytes.length ≠ 0 := by omega
  have hloop := @writeLoop_of_ne_nil τ σ ι C m io _ hbytes s
  rw [← hm] at hloop
  refine ⟨[⟨.wait [t] (.write bytes), .inr (.ok ⟨bytes.length, Nat.le_refl _⟩)⟩], ?_, ?_⟩
  · rw [Async.within, hloop, Task.timeout, Task.bind_await]
    refine .await ?_
    simp only [hne, if_false, List.drop_length, writeLoop_nil]
    exact .done
  · rintro e (_ | ⟨_, ⟨⟩⟩)
    exact List.length_pos_iff.mpr hbytes

theorem exists_silent_flush (io : IoError → ε) (s : σ) :
    ∃ es, (flushStream io s : Task (Timed τ Stream C) σ _).Run es s (.ok ()) ∧ Silent es := by
  refine ⟨[⟨.wait [] .flush, .inr (.ok ())⟩], ?_, ?_⟩
  · rw [flushStream_apply]
    exact .await .done
  · rintro e (_ | ⟨_, ⟨⟩⟩)
    trivial

variable (t elapsed conv) in
theorem exists_silent_read {n : Nat} (fill : List UInt8 → σ → σ) (eof : Nat → ι)
    (io : IoError → ι) (hn : 0 < n) (s : σ) :
    ∃ es, (Async.within (C := C) t elapsed conv (readLoop n fill eof io n []) s).Run es s
      (.error elapsed) ∧ Silent es := by
  obtain ⟨m, rfl⟩ := Nat.exists_eq_add_of_lt hn
  rw [Nat.zero_add]
  refine ⟨[⟨.wait [t] (.read (m + 1)), .inl 0⟩], ?_, ?_⟩
  · rw [Async.within, readLoop_of_lt (Nat.succ_pos m), Task.timeout, Task.bind_await]
    exact .await .done
  · rintro e (_ | ⟨_, ⟨⟩⟩)
    rfl

end

end Wagonet.Library
