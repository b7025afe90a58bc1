import Wagonet.Library.Task

/-!
Reading and writing a byte stream piece by piece.

The operations are those of a connected socket: one `read` yields at most
as many bytes as there is room for and no bytes at the end of the stream,
one `write` accepts some of the bytes offered. The loops built on them,
which fill a buffer completely or write a buffer out completely, are
parametrized by what they do with the bytes and by the errors of their
caller.
-/

namespace Wagonet.Library

inductive IoError
  | unexpectedEof
  | writeZero
  | other (code : Nat)
  deriving DecidableEq, Repr

inductive StreamOp
  | read (room : Nat)
  | write (bytes : List UInt8)
  | flush
  deriving DecidableEq

/-- The answers a stream can give. The bounds are part of the type: a read never
yields more bytes than there is room for, a write never accepts more than it is
offered. -/
@[reducible] def StreamOp.Reply : StreamOp → Type
  | .read room => Except IoError { bytes : List UInt8 // bytes.length ≤ room }
  | .write bytes => Except IoError { n : Nat // n ≤ bytes.length }
  | .flush => Except IoError Unit

@[reducible] def Stream : Interface where
  Op := StreamOp
  Reply := StreamOp.Reply

/-- What has arrived at one end of a connection and was not read yet, and whether
the peer has closed its end. -/
structure Inbox where
  bytes : List UInt8 := []
  closed : Bool := false

/-- How the network lets an operation end: it moves at most so many bytes, or it fails. -/
inductive IoChoice
  | ready (atMost : Nat)
  | fail (e : IoError)

/-- The answer to an operation; `none` while it has to wait. -/
def Inbox.answer (inbox : Inbox) : (o : StreamOp) → IoChoice → Option o.Reply
  | .read room, .ready n =>
      if inbox.bytes = [] then
        if inbox.closed then some (.ok ⟨[], Nat.zero_le room⟩) else none
      else if n = 0 then
        none
      else
        some (.ok ⟨inbox.bytes.take (min n room),
          Nat.le_trans (List.length_take_le _ _) (Nat.min_le_right _ _)⟩)
  | .write bytes, .ready n => some (.ok ⟨min n bytes.length, Nat.min_le_right _ _⟩)
  | .flush, .ready _ => some (.ok ())
  | .read _, .fail e => some (.error e)
  | .write _, .fail e => some (.error e)
  | .flush, .fail e => some (.error e)

/-- The first `n` bytes were read. -/
def Inbox.consume (inbox : Inbox) (n : Nat) : Inbox := { inbox with bytes := inbox.bytes.drop n }

@[simp] theorem Inbox.consume_zero (inbox : Inbox) : inbox.consume 0 = inbox := rfl

@[simp] theorem Inbox.consume_bytes (inbox : Inbox) (n : Nat) :
    (inbox.consume n).bytes = inbox.bytes.drop n := rfl

def Inbox.deliver (inbox : Inbox) (bytes : List UInt8) : Inbox :=
  { inbox with bytes := inbox.bytes ++ bytes }

def Inbox.close (inbox : Inbox) : Inbox := { inbox with closed := true }

section

variable {τ σ ε : Type} {C : Interface}

/-- Read until `n` bytes are there, given the ones that are. The number of
iterations is bounded by the number of missing bytes, since each brings at least
one. `fill` keeps the bytes read so far in the caller's buffer, `eof` is the
caller's error for a stream that ends after that many bytes. -/
def readLoop (n : Nat) (fill : List UInt8 → σ → σ) (eof : Nat → ε) (io : IoError → ε) :
    Nat → List UInt8 → Async (Timed τ Stream C) σ ε (List UInt8)
  | 0, filled => pure filled
  | fuel + 1, filled =>
      if filled.length < n then do
        match ← Async.wait (A := Stream) (.read (n - filled.length)) with
        | .error e => Async.fail (io e)
        | .ok chunk =>
            if chunk.val = [] then
              Async.fail (eof filled.length)
            else do
              Async.modify (fill (filled ++ chunk.val))
              readLoop n fill eof io fuel (filled ++ chunk.val)
      else
        pure filled

/-- Write until nothing is left to write. -/
def writeLoop (io : IoError → ε) :
    Nat → List UInt8 → Async (Timed τ Stream C) σ ε Unit
  | 0, _ => pure ()
  | fuel + 1, bytes =>
      if bytes = [] then
        pure ()
      else do
        match ← Async.wait (A := Stream) (.write bytes) with
        | .error e => Async.fail (io e)
        | .ok n =>
            if n.val = 0 then
              Async.fail (io .writeZero)
            else
              writeLoop io fuel (bytes.drop n.val)

/-- A read loop that misses bytes is suspended at a read with room for exactly those. -/
theorem readLoop_of_lt {n fuel : Nat} {fill : List UInt8 → σ → σ} {eof : Nat → ε}
    {io : IoError → ε} {filled : List UInt8} (h : filled.length < n) (s : σ) :
    (readLoop n fill eof io (fuel + 1) filled s : Task (Timed τ Stream C) σ _) =
      .await s (.wait [] (.read (n - filled.length))) fun r =>
        match r with
        | .inl i => i.elim0
        | .inr (.error e) => .done s (.error (io e))
        | .inr (.ok chunk) =>
            if chunk.val = [] then .done s (.error (eof filled.length))
            else
              readLoop n fill eof io fuel (filled ++ chunk.val) (fill (filled ++ chunk.val) s) := by
  simp only [readLoop, h, if_true]
  refine congrArg _ (funext fun r => ?_)
  match r with
  | .inl i => exact i.elim0
  | .inr (.error e) => rfl
  | .inr (.ok chunk) =>
      by_cases hc : chunk.val = []
      · simp only [Task.bind_done, hc, if_true]
        rfl
      · simp only [Task.bind_done, hc, if_false]
        rfl

theorem readLoop_of_full {n fuel : Nat} {fill : List UInt8 → σ → σ} {eof : Nat → ε}
    {io : IoError → ε} {filled : List UInt8} (h : n ≤ filled.length) (s : σ) :
    (readLoop n fill eof io fuel filled s : Task (Timed τ Stream C) σ _) =
      .done s (.ok filled) := by
  cases fuel with
  | zero => rfl
  | succ fuel =>
      simp only [readLoop, Nat.not_lt.mpr h, if_false]
      rfl

/-- A write loop with bytes left is suspended at a write of all of them. -/
theorem writeLoop_of_ne_nil {fuel : Nat} {io : IoError → ε} {bytes : List UInt8}
    (h : bytes ≠ []) (s : σ) :
    (writeLoop io (fuel + 1) bytes s : Task (Timed τ Stream C) σ _) =
      .await s (.wait [] (.write bytes)) fun r =>
        match r with
        | .inl i => i.elim0
        | .inr (.error e) => .done s (.error (io e))
        | .inr (.ok n) =>
            if n.val = 0 then .done s (.error (io .writeZero))
            else writeLoop io fuel (bytes.drop n.val) s := by
  simp only [writeLoop, h, if_false]
  refine congrArg _ (funext fun r => ?_)
  match r with
  | .inl i => exact i.elim0
  | .inr (.error e) => rfl
  | .inr (.ok n) =>
      by_cases hn : n.val = 0
      · simp only [Task.bind_done, hn, if_true]
        rfl
      · simp only [Task.bind_done, hn, if_false]

@[simp] theorem writeLoop_nil {fuel : Nat} {io : IoError → ε} (s : σ) :
    (writeLoop io fuel [] s : Task (Timed τ Stream C) σ _) = .done s (.ok ()) := by
  cases fuel <;> rfl

def flushStream (io : IoError → ε) : Async (Timed τ Stream C) σ ε Unit := do
  match ← Async.wait (A := Stream) .flush with
  | .error e => Async.fail (io e)
  | .ok () => pure ()

theorem flushStream_apply {io : IoError → ε} (s : σ) :
    (flushStream io s : Task (Timed τ Stream C) σ _) =
      .await s (.wait [] .flush) fun r =>
        match r with
        | .inl i => i.elim0
        | .inr (.error e) => .done s (.error (io e))
        | .inr (.ok ()) => .done s (.ok ()) := by
  refine congrArg _ (funext fun r => ?_)
  match r with
  | .inl i => exact i.elim0
  | .inr (.error e) => rfl
  | .inr (.ok ()) => rfl

theorem awaits_readLoop {n fuel : Nat} {fill : List UInt8 → σ → σ} {eof : Nat → ε}
    {io : IoError → ε} {filled : List UInt8} :
    (readLoop n fill eof io fuel filled : Async (Timed τ Stream C) σ ε _).Uses Async.Awaits := by
  induction fuel generalizing filled with
  | zero => exact Async.uses_pure _
  | succ fuel ih =>
      unfold readLoop
      split
      · refine (Async.awaits_wait _).bind fun r => ?_
        match r with
        | .error e => exact Async.uses_fail _
        | .ok chunk =>
            dsimp only
            split
            · exact Async.uses_fail _
            · exact (Async.uses_modify _).bind fun _ => ih
      · exact Async.uses_pure _

theorem awaits_writeLoop {fuel : Nat} {io : IoError → ε} {bytes : List UInt8} :
    (writeLoop io fuel bytes : Async (Timed τ Stream C) σ ε _).Uses Async.Awaits := by
  induction fuel generalizing bytes with
  | zero => exact Async.uses_pure _
  | succ fuel ih =>
      unfold writeLoop
      split
      · exact Async.uses_pure _
      · refine (Async.awaits_wait _).bind fun r => ?_
        match r with
        | .error e => exact Async.uses_fail _
        | .ok n =>
            dsimp only
            split
            · exact Async.uses_fail _
            · exact ih

theorem awaits_flushStream {io : IoError → ε} :
    (flushStream io : Async (Timed τ Stream C) σ ε _).Uses Async.Awaits := by
  refine (Async.awaits_wait _).bind fun r => ?_
  match r with
  | .error e => exact Async.uses_fail _
  | .ok () => exact Async.uses_pure _

/-! ### What a run has sent and received -/

/-- The bytes an answered operation brought in. -/
@[simp] def StreamOp.received : (o : StreamOp) → o.Reply → List UInt8
  | .read _, .ok chunk => chunk.val
  | _, _ => []

/-- The bytes an answered operation wrote. -/
@[simp] def StreamOp.sent : (o : StreamOp) → o.Reply → List UInt8
  | .write bytes, .ok n => bytes.take n.val
  | _, _ => []

/-- The operation failed: an error, the end of the stream where bytes were
wanted, or a write that accepted nothing. -/
@[simp] def StreamOp.failed : (o : StreamOp) → o.Reply → Bool
  | .read _, .ok chunk => chunk.val.isEmpty
  | .write _, .ok n => n.val == 0
  | .flush, .ok () => false
  | _, _ => true

@[simp] def Interface.Event.received (e : (Timed τ Stream C).Event) : List UInt8 :=
  match e with
  | ⟨.wait _ o, .inr r⟩ => StreamOp.received o r
  | _ => []

@[simp] def Interface.Event.sent (e : (Timed τ Stream C).Event) : List UInt8 :=
  match e with
  | ⟨.wait _ o, .inr r⟩ => StreamOp.sent o r
  | _ => []

/-- The operation failed, or a timer around it ran out. -/
@[simp] def Interface.Event.failed (e : (Timed τ Stream C).Event) : Bool :=
  match e with
  | ⟨.wait _ o, .inr r⟩ => StreamOp.failed o r
  | ⟨.wait _ _, .inl _⟩ => true
  | ⟨.call _, _⟩ => false

/-- The peer has closed its end, and everything that it sent was read. -/
def Interface.Event.AtEnd (e : (Timed τ Stream C).Event) : Prop :=
  match e with
  | ⟨.wait _ (.read room), .inr (.ok chunk)⟩ => 0 < room ∧ chunk.val = []
  | _ => False

/-- A read takes the first bytes that have arrived. -/
theorem Inbox.received_of_answer {inbox : Inbox} {o : StreamOp} {choice : IoChoice} {r : o.Reply}
    (h : inbox.answer o choice = some r) :
    StreamOp.received o r = inbox.bytes.take (StreamOp.received o r).length := by
  match o, choice with
  | .read room, .ready n =>
      rw [Inbox.answer] at h
      split at h
      · rename_i hnil
        split at h
        · cases h
          rw [hnil]
          rfl
        · cases h
      · split at h
        · cases h
        · cases h
          simp only [StreamOp.received, List.length_take]
          rw [Nat.min_comm, ← List.take_eq_take_min]
  | .read _, .fail _ => cases h; rfl
  | .write _, .ready _ => cases h; rfl
  | .write _, .fail _ => cases h; rfl
  | .flush, .ready _ => cases h; rfl
  | .flush, .fail _ => cases h; rfl

theorem Inbox.closed_of_answer {inbox : Inbox} {room : Nat} {choice : IoChoice}
    {chunk : { bytes : List UInt8 // bytes.length ≤ room }} (hroom : 0 < room)
    (h : inbox.answer (.read room) choice = some (.ok chunk)) (hchunk : chunk.val = []) :
    inbox.bytes = [] ∧ inbox.closed = true := by
  match choice with
  | .fail _ => cases h
  | .ready n =>
      rw [Inbox.answer] at h
      split at h
      · rename_i hnil
        split at h
        · rename_i hclosed
          exact ⟨hnil, hclosed⟩
        · cases h
      · rename_i hbytes
        split at h
        · cases h
        · rename_i hn
          cases h
          rcases List.take_eq_nil_iff.mp hchunk with hzero | hnil
          · omega
          · exact absurd hnil hbytes

/-- All bytes received in a run, in order. -/
def received (es : List (Timed τ Stream C).Event) : List UInt8 := es.flatMap (·.received)

/-- All bytes sent in a run, in order. -/
def sent (es : List (Timed τ Stream C).Event) : List UInt8 := es.flatMap (·.sent)

/-- Some operation of the run failed. -/
def anyFailed (es : List (Timed τ Stream C).Event) : Bool := es.any (·.failed)

@[simp] theorem received_nil : received ([] : List (Timed τ Stream C).Event) = [] := rfl

@[simp] theorem sent_nil : sent ([] : List (Timed τ Stream C).Event) = [] := rfl

@[simp] theorem anyFailed_nil : anyFailed ([] : List (Timed τ Stream C).Event) = false := rfl

@[simp] theorem received_cons (e : (Timed τ Stream C).Event) (es : List (Timed τ Stream C).Event) :
    received (e :: es) = e.received ++ received es := rfl

@[simp] theorem sent_cons (e : (Timed τ Stream C).Event) (es : List (Timed τ Stream C).Event) :
    sent (e :: es) = e.sent ++ sent es := rfl

@[simp] theorem anyFailed_cons (e : (Timed τ Stream C).Event)
    (es : List (Timed τ Stream C).Event) :
    anyFailed (e :: es) = (e.failed || anyFailed es) := rfl

@[simp] theorem received_append (es es' : List (Timed τ Stream C).Event) :
    received (es ++ es') = received es ++ received es' := List.flatMap_append ..

@[simp] theorem sent_append (es es' : List (Timed τ Stream C).Event) :
    sent (es ++ es') = sent es ++ sent es' := List.flatMap_append ..

@[simp] theorem anyFailed_append (es es' : List (Timed τ Stream C).Event) :
    anyFailed (es ++ es') = (anyFailed es || anyFailed es') := List.any_append ..

/-- The peer was found to have closed its end, where bytes were wanted. -/
def PeerClosed (es : List (Timed τ Stream C).Event) : Prop := ∃ e ∈ es, e.AtEnd

@[simp] theorem peerClosed_nil : ¬PeerClosed ([] : List (Timed τ Stream C).Event) := by
  simp [PeerClosed]

@[simp] theorem peerClosed_cons (e : (Timed τ Stream C).Event)
    (es : List (Timed τ Stream C).Event) :
    PeerClosed (e :: es) ↔ e.AtEnd ∨ PeerClosed es := by
  simp [PeerClosed]

@[simp] theorem peerClosed_append (es es' : List (Timed τ Stream C).Event) :
    PeerClosed (es ++ es') ↔ PeerClosed es ∨ PeerClosed es' := by
  simp only [PeerClosed, List.mem_append, or_and_right, exists_or]

/-- Whatever was done, a task may end without sending or receiving any more: all the
operations that are left fail. -/
theorem Task.exists_quiet_run (hC : ∀ c : C.Op, Nonempty (C.Reply c)) {α : Type}
    (t : Task (Timed τ Stream C) σ α) :
    ∃ es s a, t.Run es s a ∧ sent es = [] ∧ received es = [] := by
  induction t with
  | done s a => exact ⟨[], s, a, .done, rfl, rfl⟩
  | await s o k ih =>
      match o with
      | .call c =>
          obtain ⟨r⟩ := hC c
          obtain ⟨es, s', a, hrun, hsent, hreceived⟩ := ih r
          exact ⟨_, s', a, .await hrun, by simp [hsent], by simp [hreceived]⟩
      | .wait ts (.read room) =>
          obtain ⟨es, s', a, hrun, hsent, hreceived⟩ := ih (.inr (.error .unexpectedEof))
          exact ⟨_, s', a, .await hrun, by simp [hsent], by simp [hreceived]⟩
      | .wait ts (.write bytes) =>
          obtain ⟨es, s', a, hrun, hsent, hreceived⟩ := ih (.inr (.error .unexpectedEof))
          exact ⟨_, s', a, .await hrun, by simp [hsent], by simp [hreceived]⟩
      | .wait ts .flush =>
          obtain ⟨es, s', a, hrun, hsent, hreceived⟩ := ih (.inr (.error .unexpectedEof))
          exact ⟨_, s', a, .await hrun, by simp [hsent], by simp [hreceived]⟩

/-! ### Runs of the loops inside a timer -/

section

variable {ι : Type} {t : τ} {elapsed : ε} {conv : ι → ε} {s s' : σ}
  {es : List (Timed τ Stream C).Event}

/-- A buffer that keeps what was read: the longer beginning replaces the shorter. -/
def KeepsLongest (fill : List UInt8 → σ → σ) : Prop :=
  ∀ a b s, a.length ≤ b.length → fill b (fill a s) = fill b s

/-- Reading inside a timer either yields all bytes, or fails with fewer. -/
theorem readLoop_timeout_run {n fuel : Nat} {fill : List UInt8 → σ → σ} {eof : Nat → ι}
    {io : IoError → ι} {filled : List UInt8} {r : Option (Except ι (List UInt8))}
    (hfill : KeepsLongest fill) (hn : n ≤ filled.length + fuel) (hle : filled.length ≤ n)
    (h : ((readLoop n fill eof io fuel filled s : Task (Timed τ Stream C) σ _).timeout t).Run
      es s' r) :
    sent es = [] ∧
      (((filled ++ received es).length = n ∧ anyFailed es = false ∧
          r = some (.ok (filled ++ received es)) ∧
          s' = if received es = [] then s else fill (filled ++ received es) s) ∨
        ((filled ++ received es).length < n ∧ anyFailed es = true ∧
          ∀ bytes, r ≠ some (.ok bytes))) := by
  induction fuel generalizing filled s es with
  | zero =>
      obtain ⟨rfl, rfl, rfl⟩ := Task.run_done_iff.mp h
      have hlen : filled.length = n := by omega
      simp [hlen]
  | succ fuel ih =>
      rcases Nat.lt_or_ge filled.length n with hlt | hge
      · rw [readLoop_of_lt hlt, Task.timeout, Task.run_await_iff] at h
        obtain ⟨reply, es', rfl, h⟩ := h
        rcases reply with ⟨i, hi⟩ | e | chunk
        · obtain rfl : i = 0 := Nat.lt_one_iff.mp hi
          obtain ⟨rfl, rfl, rfl⟩ := Task.run_done_iff.mp h
          simp [hlt]
        · obtain ⟨rfl, rfl, rfl⟩ := Task.run_done_iff.mp h
          simp [hlt]
        · by_cases hc : chunk.val = []
          · simp only [hc, if_true] at h
            obtain ⟨rfl, rfl, rfl⟩ := Task.run_done_iff.mp h
            simp [hlt, hc]
          · simp only [hc, if_false] at h
            have hpos : 0 < chunk.val.length := List.length_pos_iff.mpr hc
            have hroom := chunk.property
            obtain ⟨hsent, hcase⟩ := ih (by simp; omega) (by simp; omega) h
            have hemp : chunk.val.isEmpty = false := List.isEmpty_eq_false_iff.mpr hc
            have hsub : chunk.val ++ received es' ≠ [] := by simp [hc]
            simp only [sent_cons, Interface.Event.sent, StreamOp.sent, hsent, received_cons,
              Interface.Event.received, StreamOp.received, anyFailed_cons,
              Interface.Event.failed, StreamOp.failed, hemp, Bool.false_or, hsub,
              ← List.append_assoc, if_false]
            rcases hcase with ⟨hlen, hok, hr, hs⟩ | hcase
            · refine ⟨rfl, .inl ⟨hlen, hok, hr, ?_⟩⟩
              rw [hs]
              split
              · rename_i hnil
                rw [hnil, List.append_nil]
              · exact hfill _ _ _ (by simp)
            · exact ⟨rfl, .inr hcase⟩
      · rw [readLoop_of_full hge] at h
        obtain ⟨rfl, rfl, rfl⟩ := Task.run_done_iff.mp h
        have hlen : filled.length = n := by omega
        simp [hlen]

/-- Writing inside a timer either writes everything, or fails with bytes left. -/
theorem writeLoop_timeout_run {fuel : Nat} {io : IoError → ι} {bytes : List UInt8}
    {r : Option (Except ι Unit)} (hfuel : bytes.length ≤ fuel)
    (h : ((writeLoop io fuel bytes s : Task (Timed τ Stream C) σ _).timeout t).Run es s' r) :
    received es = [] ∧ s' = s ∧
      ((sent es = bytes ∧ anyFailed es = false ∧ r = some (.ok ())) ∨
        ((∃ rest, rest ≠ [] ∧ bytes = sent es ++ rest) ∧ anyFailed es = true ∧
          r ≠ some (.ok ()))) := by
  induction fuel generalizing bytes es with
  | zero =>
      obtain rfl : bytes = [] := List.eq_nil_of_length_eq_zero (by omega)
      obtain ⟨rfl, rfl, rfl⟩ := Task.run_done_iff.mp h
      simp
  | succ fuel ih =>
      by_cases hb : bytes = []
      · subst hb
        obtain ⟨rfl, rfl, rfl⟩ := Task.run_done_iff.mp h
        simp
      · rw [writeLoop_of_ne_nil hb, Task.timeout, Task.run_await_iff] at h
        obtain ⟨reply, es', rfl, h⟩ := h
        rcases reply with ⟨i, hi⟩ | e | n
        · obtain rfl : i = 0 := Nat.lt_one_iff.mp hi
          obtain ⟨rfl, rfl, rfl⟩ := Task.run_done_iff.mp h
          simp [hb]
        · obtain ⟨rfl, rfl, rfl⟩ := Task.run_done_iff.mp h
          simp [hb]
        · by_cases hn : n.val = 0
          · simp only [hn, if_true] at h
            obtain ⟨rfl, rfl, rfl⟩ := Task.run_done_iff.mp h
            simp [hn, hb]
          · simp only [hn, if_false] at h
            have hle := n.property
            obtain ⟨hrec, hs, hcase⟩ := ih (by simp; omega) h
            have hsplit := List.take_append_drop n.val bytes
            refine ⟨by simp [hrec], hs, ?_⟩
            rcases hcase with ⟨hsent, hok, hr⟩ | ⟨⟨rest, hne, hrest⟩, hok, hr⟩
            · left
              refine ⟨?_, by simp [hn, hok], hr⟩
              simp only [sent_cons, Interface.Event.sent, StreamOp.sent, hsent, hsplit]
            · right
              refine ⟨⟨rest, hne, ?_⟩, by simp [hok], hr⟩
              simp only [sent_cons, Interface.Event.sent, StreamOp.sent, List.append_assoc,
                ← hrest, hsplit]

/-- Reading inside a timer ends with the caller's error for the end of the stream if the
peer has closed, and with no such error otherwise. -/
theorem readLoop_timeout_closed {n fuel : Nat} {fill : List UInt8 → σ → σ} {eof : Nat → ι}
    {io : IoError → ι} {filled : List UInt8} {r : Option (Except ι (List UInt8))}
    (h : ((readLoop n fill eof io fuel filled s : Task (Timed τ Stream C) σ _).timeout t).Run
      es s' r) :
    (PeerClosed es ∧ (filled ++ received es).length < n ∧
        r = some (.error (eof (filled ++ received es).length))) ∨
      (¬PeerClosed es ∧ ∀ e, r = some (.error e) → ∃ i, e = io i) := by
  induction fuel generalizing filled s es with
  | zero =>
      obtain ⟨rfl, rfl, rfl⟩ := Task.run_done_iff.mp h
      exact .inr ⟨peerClosed_nil, by rintro e ⟨⟩⟩
  | succ fuel ih =>
      rcases Nat.lt_or_ge filled.length n with hlt | hge
      · rw [readLoop_of_lt hlt, Task.timeout, Task.run_await_iff] at h
        obtain ⟨reply, es', rfl, h⟩ := h
        rcases reply with ⟨i, hi⟩ | e | chunk
        · obtain rfl : i = 0 := Nat.lt_one_iff.mp hi
          obtain ⟨rfl, rfl, rfl⟩ := Task.run_done_iff.mp h
          exact .inr ⟨by simp [Interface.Event.AtEnd], by rintro e ⟨⟩⟩
        · obtain ⟨rfl, rfl, rfl⟩ := Task.run_done_iff.mp h
          refine .inr ⟨by simp [Interface.Event.AtEnd], ?_⟩
          rintro e ⟨⟩
          exact ⟨_, rfl⟩
        · by_cases hc : chunk.val = []
          · simp only [hc, if_true] at h
            obtain ⟨rfl, rfl, rfl⟩ := Task.run_done_iff.mp h
            have hroom : 0 < n - filled.length := by omega
            left
            simp [Interface.Event.AtEnd, hc, hlt, hroom]
          · simp only [hc, if_false] at h
            simpa [Interface.Event.AtEnd, hc, ← List.append_assoc] using ih h
      · rw [readLoop_of_full hge] at h
        obtain ⟨rfl, rfl, rfl⟩ := Task.run_done_iff.mp h
        exact .inr ⟨peerClosed_nil, by rintro e ⟨⟩⟩

/-- Writing does not notice whether the peer has closed its end. -/
theorem writeLoop_timeout_closed {fuel : Nat} {io : IoError → ι} {bytes : List UInt8}
    {r : Option (Except ι Unit)}
    (h : ((writeLoop io fuel bytes s : Task (Timed τ Stream C) σ _).timeout t).Run es s' r) :
    ¬PeerClosed es ∧ ∀ e, r = some (.error e) → ∃ i, e = io i := by
  induction fuel generalizing bytes es with
  | zero =>
      obtain ⟨rfl, rfl, rfl⟩ := Task.run_done_iff.mp h
      exact ⟨peerClosed_nil, by rintro e ⟨⟩⟩
  | succ fuel ih =>
      by_cases hb : bytes = []
      · subst hb
        obtain ⟨rfl, rfl, rfl⟩ := Task.run_done_iff.mp h
        exact ⟨peerClosed_nil, by rintro e ⟨⟩⟩
      · rw [writeLoop_of_ne_nil hb, Task.timeout, Task.run_await_iff] at h
        obtain ⟨reply, es', rfl, h⟩ := h
        rcases reply with ⟨i, hi⟩ | e | n
        · obtain rfl : i = 0 := Nat.lt_one_iff.mp hi
          obtain ⟨rfl, rfl, rfl⟩ := Task.run_done_iff.mp h
          exact ⟨by simp [Interface.Event.AtEnd], by rintro e ⟨⟩⟩
        · obtain ⟨rfl, rfl, rfl⟩ := Task.run_done_iff.mp h
          refine ⟨by simp [Interface.Event.AtEnd], ?_⟩
          rintro e ⟨⟩
          exact ⟨_, rfl⟩
        · by_cases hn : n.val = 0
          · simp only [hn, if_true] at h
            obtain ⟨rfl, rfl, rfl⟩ := Task.run_done_iff.mp h
            refine ⟨by simp [Interface.Event.AtEnd], ?_⟩
            rintro e ⟨⟩
            exact ⟨.writeZero, rfl⟩
          · simp only [hn, if_false] at h
            simpa [Interface.Event.AtEnd] using ih h

/-- Reading a frame that is not empty begins by waiting for all of it. -/
theorem readLoop_within_await {n : Nat} {fill : List UInt8 → σ → σ} {eof : Nat → ι}
    {io : IoError → ι} (hn : 0 < n) (s : σ) :
    ∃ k, (Async.within (C := C) t elapsed conv (readLoop n fill eof io n []) s) =
      .await s (.wait [t] (.read n)) k := by
  obtain ⟨m, rfl⟩ := Nat.exists_eq_add_of_lt hn
  rw [Nat.zero_add, Async.within, readLoop_of_lt (by simp), Task.timeout, Task.bind_await]
  exact ⟨_, rfl⟩

variable (t elapsed conv) in
/-- Writing a frame that is not empty begins by waiting to write all of it. -/
theorem writeLoop_within_await (io : IoError → ι) {bytes : List UInt8} (hbytes : bytes ≠ [])
    (s : σ) :
    ∃ k, (Async.within (C := C) t elapsed conv (writeLoop io bytes.length bytes) s) =
      .await s (.wait [t] (.write bytes)) k := by
  obtain ⟨m, hm⟩ := Nat.exists_eq_add_of_lt (List.length_pos_iff.mpr hbytes)
  rw [Nat.zero_add] at hm
  rw [Async.within, hm, writeLoop_of_ne_nil hbytes, Task.timeout, Task.bind_await]
  exact ⟨_, rfl⟩

/-- Reading a frame of `n` bytes inside a timer, as seen by the caller. -/
theorem readLoop_within_run {n : Nat} {fill : List UInt8 → σ → σ} {eof : Nat → ι}
    {io : IoError → ι} {r : Except ε (List UInt8)} (hfill : KeepsLongest fill)
    (h : (Async.within (C := C) t elapsed conv (readLoop n fill eof io n []) s).Run es s' r) :
    sent es = [] ∧
      (((received es).length = n ∧ anyFailed es = false ∧ r = .ok (received es) ∧
          s' = if received es = [] then s else fill (received es) s) ∨
        ((received es).length < n ∧ anyFailed es = true ∧ ∃ e, r = .error e)) := by
  obtain ⟨es₁, es₂, s₁, o, rfl, h₁, h₂⟩ := Task.run_bind_iff.mp h
  obtain ⟨rfl, rfl, rfl⟩ := Task.run_done_iff.mp h₂
  obtain ⟨hsent, hcase⟩ := readLoop_timeout_run hfill (by simp) (by simp) h₁
  simp only [List.append_nil, List.nil_append] at hcase ⊢
  refine ⟨hsent, hcase.imp ?_ ?_⟩
  · rintro ⟨hlen, hok, rfl, hs⟩
    exact ⟨hlen, hok, rfl, hs⟩
  · rintro ⟨hlen, hbad, hr⟩
    refine ⟨hlen, hbad, ?_⟩
    match o with
    | none => exact ⟨_, rfl⟩
    | some (.error e) => exact ⟨_, rfl⟩
    | some (.ok bytes) => exact absurd rfl (hr bytes)

/-- Writing a frame inside a timer, as seen by the caller. -/
theorem writeLoop_within_run {io : IoError → ι} {bytes : List UInt8} {r : Except ε Unit}
    (h : (Async.within (C := C) t elapsed conv (writeLoop io bytes.length bytes) s).Run es s' r) :
    received es = [] ∧ s' = s ∧
      ((sent es = bytes ∧ anyFailed es = false ∧ r = .ok ()) ∨
        ((∃ rest, rest ≠ [] ∧ bytes = sent es ++ rest) ∧ anyFailed es = true ∧
          ∃ e, r = .error e)) := by
  obtain ⟨es₁, es₂, s₁, o, rfl, h₁, h₂⟩ := Task.run_bind_iff.mp h
  obtain ⟨rfl, rfl, rfl⟩ := Task.run_done_iff.mp h₂
  obtain ⟨hrec, hs, hcase⟩ := writeLoop_timeout_run (Nat.le_refl _) h₁
  simp only [List.append_nil]
  refine ⟨hrec, hs, hcase.imp ?_ ?_⟩
  · rintro ⟨hsent, hok, rfl⟩
    exact ⟨hsent, hok, rfl⟩
  · rintro ⟨hsent, hbad, hr⟩
    refine ⟨hsent, hbad, ?_⟩
    match o with
    | none => exact ⟨_, rfl⟩
    | some (.error e) => exact ⟨_, rfl⟩
    | some (.ok ()) => exact absurd rfl hr

variable (t elapsed conv) in
/-- A frame can be written in one go. -/
theorem writeLoop_within_succeeds (io : IoError → ι) (bytes : List UInt8) (s : σ) :
    ∃ es, (Async.within (C := C) t elapsed conv (writeLoop io bytes.length bytes) s).Run es s
      (.ok ()) ∧ sent es = bytes ∧ received es = [] := by
  by_cases hbytes : bytes = []
  · subst hbytes
    exact ⟨[], .done, rfl, rfl⟩
  obtain ⟨m, hm⟩ := Nat.exists_eq_add_of_lt (List.length_pos_iff.mpr hbytes)
  rw [Nat.zero_add] at hm
  have hne : bytes.length ≠ 0 := by omega
  have hloop := @writeLoop_of_ne_nil τ σ ι C m io _ hbytes s
  rw [← hm] at hloop
  refine ⟨[⟨.wait [t] (.write bytes), .inr (.ok ⟨bytes.length, Nat.le_refl _⟩)⟩], ?_,
    by simp, by simp⟩
  rw [Async.within, hloop, Task.timeout, Task.bind_await]
  refine .await ?_
  simp only [hne, if_false, List.drop_length, writeLoop_nil]
  exact .done

variable (t elapsed conv) in
/-- A frame can arrive in one go. -/
theorem readLoop_within_succeeds {n : Nat} (fill : List UInt8 → σ → σ) (eof : Nat → ι)
    (io : IoError → ι) {bytes : List UInt8} (hn : bytes.length = n) (hpos : 0 < n) (s : σ) :
    ∃ es s', (Async.within (C := C) t elapsed conv (readLoop n fill eof io n []) s).Run es s'
      (.ok bytes) ∧ received es = bytes ∧ sent es = [] := by
  obtain ⟨m, hm⟩ := Nat.exists_eq_add_of_lt hpos
  rw [Nat.zero_add] at hm
  subst hm
  refine ⟨[⟨.wait [t] (.read (m + 1)), .inr (.ok ⟨bytes, Nat.le_of_eq hn⟩)⟩], fill bytes s, ?_,
    by simp, by simp⟩
  rw [Async.within, readLoop_of_lt (by simp), Task.timeout, Task.bind_await]
  refine .await ?_
  have hne : bytes ≠ [] := List.length_pos_iff.mp (by omega)
  simp only [hne, if_false, List.nil_append]
  rw [readLoop_of_full (Nat.le_of_eq hn.symm)]
  exact .done

theorem flushStream_succeeds (io : IoError → ε) (s : σ) :
    ∃ es, (flushStream io s : Task (Timed τ Stream C) σ _).Run es s (.ok ()) ∧ sent es = [] ∧
      received es = [] :=
  ⟨[⟨.wait [] .flush, .inr (.ok ())⟩], by rw [flushStream_apply]; exact .await .done, rfl, rfl⟩

/-- The error of a frame that could not be read: it tells of the end of the stream exactly
if the peer has closed. -/
theorem readLoop_within_closed {n : Nat} {fill : List UInt8 → σ → σ} {eof : Nat → ι}
    {io : IoError → ι} {r : Except ε (List UInt8)}
    (h : (Async.within (C := C) t elapsed conv (readLoop n fill eof io n []) s).Run es s' r) :
    (PeerClosed es ∧ (received es).length < n ∧
        r = .error (conv (eof (received es).length))) ∨
      (¬PeerClosed es ∧ ∀ e, r = .error e → e = elapsed ∨ ∃ i, e = conv (io i)) := by
  obtain ⟨es₁, es₂, s₁, o, rfl, h₁, h₂⟩ := Task.run_bind_iff.mp h
  obtain ⟨rfl, rfl, rfl⟩ := Task.run_done_iff.mp h₂
  have hcase := readLoop_timeout_closed h₁
  simp only [List.append_nil, List.nil_append] at hcase ⊢
  rcases hcase with ⟨hclosed, hlen, rfl⟩ | ⟨hopen, herror⟩
  · exact .inl ⟨hclosed, hlen, rfl⟩
  · refine .inr ⟨hopen, fun e he => ?_⟩
    match o with
    | none =>
        cases he
        exact .inl rfl
    | some (.error e') =>
        cases he
        obtain ⟨i, rfl⟩ := herror e' rfl
        exact .inr ⟨i, rfl⟩

/-- A peer has not closed its end of a frame that was read. -/
theorem readLoop_within_open {n : Nat} {fill : List UInt8 → σ → σ} {eof : Nat → ι}
    {io : IoError → ι} {bytes : List UInt8}
    (h : (Async.within (C := C) t elapsed conv (readLoop n fill eof io n []) s).Run es s'
      (.ok bytes)) : ¬PeerClosed es := by
  rcases readLoop_within_closed h with ⟨-, -, hr⟩ | ⟨hopen, -⟩
  · cases hr
  · exact hopen

theorem writeLoop_within_closed {io : IoError → ι} {bytes : List UInt8} {r : Except ε Unit}
    (h : (Async.within (C := C) t elapsed conv (writeLoop io bytes.length bytes) s).Run es s' r) :
    ¬PeerClosed es ∧ ∀ e, r = .error e → e = elapsed ∨ ∃ i, e = conv (io i) := by
  obtain ⟨es₁, es₂, s₁, o, rfl, h₁, h₂⟩ := Task.run_bind_iff.mp h
  obtain ⟨rfl, rfl, rfl⟩ := Task.run_done_iff.mp h₂
  obtain ⟨hopen, herror⟩ := writeLoop_timeout_closed h₁
  rw [List.append_nil]
  refine ⟨hopen, fun e he => ?_⟩
  match o with
  | none =>
      cases he
      exact .inl rfl
  | some (.error e') =>
      cases he
      obtain ⟨i, rfl⟩ := herror e' rfl
      exact .inr ⟨i, rfl⟩

theorem flushStream_closed {io : IoError → ε} {r : Except ε Unit}
    (h : (flushStream io s : Task (Timed τ Stream C) σ _).Run es s' r) :
    ¬PeerClosed es ∧ ∀ e, r = .error e → ∃ i, e = io i := by
  rw [flushStream_apply, Task.run_await_iff] at h
  obtain ⟨reply, es', rfl, h⟩ := h
  match reply with
  | .inl i => exact i.elim0
  | .inr (.error i) =>
      obtain ⟨rfl, rfl, rfl⟩ := Task.run_done_iff.mp h
      refine ⟨by simp [Interface.Event.AtEnd], ?_⟩
      rintro e ⟨⟩
      exact ⟨i, rfl⟩
  | .inr (.ok ()) =>
      obtain ⟨rfl, rfl, rfl⟩ := Task.run_done_iff.mp h
      exact ⟨by simp [Interface.Event.AtEnd], nofun⟩

/-- Flushing moves no bytes and either succeeds or fails. -/
theorem flushStream_run {io : IoError → ε} {r : Except ε Unit}
    (h : (flushStream io s : Task (Timed τ Stream C) σ _).Run es s' r) :
    received es = [] ∧ sent es = [] ∧ s' = s ∧
      ((anyFailed es = false ∧ r = .ok ()) ∨ (anyFailed es = true ∧ ∃ e, r = .error e)) := by
  rw [flushStream_apply, Task.run_await_iff] at h
  obtain ⟨reply, es', rfl, h⟩ := h
  match reply with
  | .inl i => exact i.elim0
  | .inr (.error e) =>
      obtain ⟨rfl, rfl, rfl⟩ := Task.run_done_iff.mp h
      simp
  | .inr (.ok ()) =>
      obtain ⟨rfl, rfl, rfl⟩ := Task.run_done_iff.mp h
      simp

end

/-- Writing without a timer either writes everything, or fails with a beginning written. -/
theorem writeLoop_run {fuel : Nat} {io : IoError → ε} {bytes : List UInt8} {r : Except ε Unit}
    (hfuel : bytes.length ≤ fuel)
    (h : (writeLoop io fuel bytes s : Task (Timed τ Stream C) σ _).Run es s' r) :
    received es = [] ∧ ((sent es = bytes ∧ r = .ok ()) ∨
      (sent es <+: bytes ∧ ∃ e, r = .error e)) := by
  induction fuel generalizing bytes es with
  | zero =>
      obtain rfl : bytes = [] := List.eq_nil_of_length_eq_zero (by omega)
      obtain ⟨rfl, rfl, rfl⟩ := Task.run_done_iff.mp h
      simp
  | succ fuel ih =>
      by_cases hb : bytes = []
      · subst hb
        obtain ⟨rfl, rfl, rfl⟩ := Task.run_done_iff.mp h
        simp
      · rw [writeLoop_of_ne_nil hb, Task.run_await_iff] at h
        obtain ⟨reply, es', rfl, h⟩ := h
        rcases reply with i | e | n
        · exact i.elim0
        · obtain ⟨rfl, rfl, rfl⟩ := Task.run_done_iff.mp h
          simp
        · by_cases hn : n.val = 0
          · simp only [hn, if_true] at h
            obtain ⟨rfl, rfl, rfl⟩ := Task.run_done_iff.mp h
            simp [hn]
          · simp only [hn, if_false] at h
            have hsplit := List.take_append_drop n.val bytes
            obtain ⟨hrec, hcase⟩ := ih (by simp; omega) h
            refine ⟨by simp [hrec], ?_⟩
            simp only [sent_cons, Interface.Event.sent, StreamOp.sent]
            rcases hcase with ⟨hsent, hr⟩ | ⟨hsent, hr⟩
            · exact .inl ⟨by rw [hsent, hsplit], hr⟩
            · refine .inr ⟨?_, hr⟩
              calc
                bytes.take n.val ++ sent es' <+: bytes.take n.val ++ bytes.drop n.val :=
                  (List.prefix_append_right_inj _).mpr hsent
                _ = bytes := hsplit

end

end Wagonet.Library
