import Wagonet.Library.Stream

/-!
Two parties that talk over a pair of byte streams.

A party follows a script: the list of the things it will do, down to the
single byte, whatever sizes the pieces have in which the network moves the
bytes. The parties of a conversation have dual scripts, and `InFlight` says
how far each of them is: one of them may be ahead of the other, by bytes it has
sent and the other has not received.

`Follows` is proved of a program by the rules of this module, one for each
construct; what it gives is that every step of the program consumes a part of
the script and keeps the two parties in step.
-/

namespace Wagonet.Library

/-! ### Scripts -/

/-- One byte sent or received. -/
inductive Move
  | send (b : UInt8)
  | recv (b : UInt8)
  deriving DecidableEq

/-- The other end of a move. -/
def Move.dual : Move → Move
  | .send b => .recv b
  | .recv b => .send b

@[simp] theorem Move.dual_send (b : UInt8) : (Move.send b).dual = .recv b := rfl

@[simp] theorem Move.dual_recv (b : UInt8) : (Move.recv b).dual = .send b := rfl

@[simp] theorem Move.dual_comp_dual : Move.dual ∘ Move.dual = id := by
  funext m
  cases m <;> rfl

theorem Move.map_dual_dual (a : List Move) : (a.map Move.dual).map Move.dual = a := by simp

/-- One thing a party does: a move, or something the other party does not notice. -/
inductive Token (τ : Type) (C : Interface)
  | send (b : UInt8)
  | recv (b : UInt8)
  | flush
  /-- wait for bytes and find the stream ended -/
  | eof
  /-- wait for bytes until this timer runs out -/
  | lapse (t : τ)
  | call (c : C.Op) (r : C.Reply c)

namespace Token

variable {τ : Type} {C : Interface}

/-- The move a token makes, if it makes one. -/
def move : Token τ C → Option Move
  | .send b => some (.send b)
  | .recv b => some (.recv b)
  | _ => none

end Token

section

variable {τ : Type} {C : Interface}

/-- The moves of a script. -/
def moves (toks : List (Token τ C)) : List Move := toks.filterMap Token.move

@[simp] theorem moves_nil : moves ([] : List (Token τ C)) = [] := rfl

@[simp] theorem moves_append (a b : List (Token τ C)) : moves (a ++ b) = moves a ++ moves b :=
  List.filterMap_append

@[simp] theorem moves_send_cons (b : UInt8) (toks : List (Token τ C)) :
    moves (.send b :: toks) = .send b :: moves toks := rfl

@[simp] theorem moves_recv_cons (b : UInt8) (toks : List (Token τ C)) :
    moves (.recv b :: toks) = .recv b :: moves toks := rfl

@[simp] theorem moves_flush_cons (toks : List (Token τ C)) :
    moves (.flush :: toks) = moves toks := rfl

@[simp] theorem moves_eof_cons (toks : List (Token τ C)) : moves (.eof :: toks) = moves toks := rfl

@[simp] theorem moves_lapse_cons (t : τ) (toks : List (Token τ C)) :
    moves (.lapse t :: toks) = moves toks := rfl

@[simp] theorem moves_call_cons (c : C.Op) (r : C.Reply c) (toks : List (Token τ C)) :
    moves (.call c r :: toks) = moves toks := rfl

@[simp] theorem moves_map_send (bs : List UInt8) :
    moves (bs.map (.send : UInt8 → Token τ C)) = bs.map .send := by
  induction bs with
  | nil => rfl
  | cons b bs ih => simp [ih]

@[simp] theorem moves_map_recv (bs : List UInt8) :
    moves (bs.map (.recv : UInt8 → Token τ C)) = bs.map .recv := by
  induction bs with
  | nil => rfl
  | cons b bs ih => simp [ih]

end

/-! ### Two parties in step -/

theorem Move.recv_prefix {bs got : List UInt8} {a a' : List Move}
    (h : bs.map Move.recv ++ a = got.map .recv ++ a') (hle : got.length ≤ bs.length) :
    got = bs.take got.length ∧ a' = (bs.drop got.length).map .recv ++ a := by
  induction got generalizing bs with
  | nil => exact ⟨by simp, by simpa using h.symm⟩
  | cons c got ih =>
      cases bs with
      | nil => simp at hle
      | cons d bs =>
          simp only [List.map_cons, List.cons_append, List.cons.injEq, Move.recv.injEq] at h
          obtain ⟨rfl, h⟩ := h
          obtain ⟨hgot, ha⟩ := ih h (by simpa using hle)
          simp only [List.length_cons, List.take_succ_cons, List.drop_succ_cons, ← hgot]
          exact ⟨trivial, ha⟩

/-- Party A has the moves `a` before it and party B the moves `b`; `ab` and `ba` are
the bytes under way. Either B is behind by the bytes A has sent, or A is behind by
the bytes B has sent. -/
def InFlight (a b : List Move) (ab ba : List UInt8) : Prop :=
  (ba = [] ∧ b = ab.map .recv ++ a.map .dual) ∨ (ab = [] ∧ a = ba.map .recv ++ b.map .dual)

namespace InFlight

variable {a b : List Move} {ab ba bs : List UInt8}

theorem symm (h : InFlight a b ab ba) : InFlight b a ba ab := Or.symm h

theorem start : InFlight [] [] [] [] := .inl ⟨rfl, rfl⟩

/-- With nothing under way the scripts are dual. -/
theorem dual_of_nil (h : InFlight a b [] []) : b = a.map .dual := by
  rcases h with ⟨-, h⟩ | ⟨-, h⟩
  · simpa using h
  · simp [h]

/-- Both parties take on something more to do. -/
theorem append (h : InFlight a b ab ba) (more : List Move) :
    InFlight (a ++ more) (b ++ more.map .dual) ab ba := by
  rcases h with ⟨h, rfl⟩ | ⟨h, rfl⟩
  · exact .inl ⟨h, by simp⟩
  · exact .inr ⟨h, by simp⟩

/-- A sends what its script says. -/
theorem send (h : InFlight (bs.map .send ++ a) b ab ba) : InFlight a b (ab ++ bs) ba := by
  rcases h with ⟨h, rfl⟩ | ⟨rfl, h⟩
  · exact .inl ⟨h, by simp⟩
  · cases bs with
    | nil => exact .inr ⟨by simp, by simpa using h⟩
    | cons c bs =>
        cases ba with
        | nil =>
            refine .inl ⟨rfl, ?_⟩
            have hb := congrArg (List.map Move.dual) h
            rw [List.map_nil, List.nil_append, Move.map_dual_dual] at hb
            simp [← hb]
        | cons d ba => cases h

/-- What A receives is what its script says. -/
theorem recv (h : InFlight a b ab (bs ++ ba)) (hne : bs ≠ []) :
    ∃ a', a = bs.map .recv ++ a' ∧ InFlight a' b ab ba := by
  rcases h with ⟨h, -⟩ | ⟨h, rfl⟩
  · exact absurd (List.append_eq_nil_iff.mp h).1 hne
  · exact ⟨ba.map .recv ++ b.map .dual, by simp, .inr ⟨h, rfl⟩⟩

/-- Nothing is under way to a party that has no more moves, unless it is behind. -/
theorem eq_nil_of_left_nil (h : InFlight [] b ab ba) : ba = [] ∧ b = ab.map .recv := by
  rcases h with ⟨h, rfl⟩ | ⟨rfl, h⟩
  · exact ⟨h, by simp⟩
  · have hnil := List.append_eq_nil_iff.mp h.symm
    simp only [List.map_eq_nil_iff] at hnil
    exact ⟨hnil.1, by simp [hnil.2]⟩

/-- A party about to receive, whose partner sends nothing any more, finds its bytes
under way. -/
theorem ne_nil_of_recv {c : UInt8} (h : InFlight (.recv c :: a) b ab ba)
    (hb : ∀ d, .send d ∉ b) : ba ≠ [] := by
  rintro rfl
  rcases h with ⟨-, rfl⟩ | ⟨-, h⟩
  · exact hb c (by simp)
  · cases b with
    | nil => cases h
    | cons m b =>
        cases m with
        | send d => exact hb d (by simp)
        | recv d => cases h

/-- A party that only has bytes to receive is not in step with one that still wants to
receive after it has sent. -/
theorem not_send_recv {c d : UInt8} {x y z : List Move} (ha : ∀ e, .send e ∉ a) :
    ¬InFlight a (x ++ .send c :: (y ++ .recv d :: z)) ab ba := by
  rintro (⟨-, h⟩ | ⟨-, rfl⟩)
  · have hd : Move.recv d ∉ a.map .dual := by
      intro hmem
      obtain ⟨m, hm, hdual⟩ := List.mem_map.mp hmem
      cases m with
      | send e => exact ha e hm
      | recv e => cases hdual
    rcases List.append_eq_append_iff.mp h with ⟨as, hab, hrest⟩ | ⟨bs, -, hrest⟩
    · cases as with
      | nil =>
          rw [List.nil_append] at hrest
          exact hd (by simp [← hrest])
      | cons m as =>
          obtain ⟨rfl, -⟩ := List.cons_eq_cons.mp hrest
          have hmem : Move.send c ∈ ab.map .recv := by simp [hab]
          simp at hmem
    · exact hd (by simp [hrest])
  · exact ha d (by simp)

end InFlight

/-- The end of a list of moves that contains no send comes after every send. -/
theorem Move.suffix_of_sendless {bs : List UInt8} {x y l : List Move} (hbs : bs ≠ [])
    (h : l <:+ x ++ (bs.map .send ++ y)) (hl : ∀ d, .send d ∉ l) : l <:+ y := by
  obtain ⟨bs', c, rfl⟩ := List.eq_nil_or_concat bs |>.resolve_left hbs
  have h' : l <:+ (x ++ bs'.map .send) ++ .send c :: y := by simpa using h
  rcases List.suffix_or_suffix_of_suffix h' (List.suffix_append _ _) with h' | h'
  · rcases List.suffix_cons_iff.mp h' with rfl | h'
    · exact absurd List.mem_cons_self (hl c)
    · exact h'
  · exact absurd (h'.subset List.mem_cons_self) (hl c)

/-! ### Programs that follow a script -/

section

variable {τ σ ε ε' α β : Type} {C : Interface} {fires : τ → Prop}

/-- None of these timers can run out. -/
def Calm (fires : τ → Prop) (ts : List τ) : Prop := ∀ t ∈ ts, ¬fires t

/-- The task does what the script says and ends in `Q`, in whatever pieces the bytes
are moved. Of the timers only those in `fires` can run out. -/
def Follows (fires : τ → Prop) :
    Task (Timed τ Stream C) σ α → List (Token τ C) → (σ → α → Prop) → Prop
  | .done s a, toks, Q => toks = [] ∧ Q s a
  | .await _ (.wait ts (.read room)) k, toks, Q =>
      (Calm fires ts ∧ ∃ bs rest, toks = bs.map .recv ++ rest ∧ bs.length = room ∧ bs ≠ [] ∧
        ∀ (n : Nat) (hn : (bs.take n).length ≤ room), 0 < n →
          Follows fires (k (.inr (.ok ⟨bs.take n, hn⟩))) ((bs.drop n).map .recv ++ rest) Q) ∨
      (Calm fires ts ∧ ∃ rest, toks = .eof :: rest ∧
        Follows fires (k (.inr (.ok ⟨[], Nat.zero_le room⟩))) rest Q) ∨
      (∃ t rest, toks = .lapse t :: rest ∧ t ∈ ts ∧ fires t ∧
        ∀ i : Fin ts.length, fires (ts.get i) → Follows fires (k (.inl i)) rest Q)
  | .await _ (.wait ts (.write bytes)) k, toks, Q =>
      Calm fires ts ∧ bytes ≠ [] ∧ ∃ rest, toks = bytes.map .send ++ rest ∧
        ∀ (n : Nat) (hn : n ≤ bytes.length), 0 < n →
          Follows fires (k (.inr (.ok ⟨n, hn⟩))) ((bytes.drop n).map .send ++ rest) Q
  | .await _ (.wait ts .flush) k, toks, Q =>
      Calm fires ts ∧ ∃ rest, toks = .flush :: rest ∧ Follows fires (k (.inr (.ok ()))) rest Q
  | .await _ (.call c) k, toks, Q =>
      ∃ r rest, toks = .call c r :: rest ∧ Follows fires (k r) rest Q

namespace Follows

theorem mono {t : Task (Timed τ Stream C) σ α} {toks : List (Token τ C)} {Q Q' : σ → α → Prop}
    (h : Follows fires t toks Q) (hQ : ∀ s a, Q s a → Q' s a) : Follows fires t toks Q' := by
  induction t generalizing toks with
  | done s a => exact ⟨h.1, hQ _ _ h.2⟩
  | await s o k ih =>
      match o with
      | .wait ts (.read room) =>
          simp only [Follows] at h ⊢
          rcases h with ⟨hc, bs, rest, rfl, hlen, hne, h⟩ | ⟨hc, rest, rfl, h⟩ |
            ⟨t, rest, rfl, ht, hf, h⟩
          · exact .inl ⟨hc, bs, rest, rfl, hlen, hne, fun n hn hpos => ih _ (h n hn hpos)⟩
          · exact .inr (.inl ⟨hc, rest, rfl, ih _ h⟩)
          · exact .inr (.inr ⟨t, rest, rfl, ht, hf, fun i hi => ih _ (h i hi)⟩)
      | .wait ts (.write bytes) =>
          simp only [Follows] at h ⊢
          obtain ⟨hc, hne, rest, rfl, h⟩ := h
          exact ⟨hc, hne, rest, rfl, fun n hn hpos => ih _ (h n hn hpos)⟩
      | .wait ts .flush =>
          simp only [Follows] at h ⊢
          obtain ⟨hc, rest, rfl, h⟩ := h
          exact ⟨hc, rest, rfl, ih _ h⟩
      | .call c =>
          simp only [Follows] at h ⊢
          obtain ⟨r, rest, rfl, h⟩ := h
          exact ⟨r, rest, rfl, ih _ h⟩

/-- A sequence follows the scripts of its parts one after the other. -/
theorem bind {t : Task (Timed τ Stream C) σ α} {f : σ → α → Task (Timed τ Stream C) σ β}
    {toks toks' : List (Token τ C)} {Q : σ → β → Prop}
    (h : Follows fires t toks fun s a => Follows fires (f s a) toks' Q) :
    Follows fires (t.bind f) (toks ++ toks') Q := by
  induction t generalizing toks with
  | done s a =>
      obtain ⟨rfl, h⟩ := h
      exact h
  | await s o k ih =>
      match o with
      | .wait ts (.read room) =>
          simp only [Task.bind_await, Follows] at h ⊢
          rcases h with ⟨hc, bs, rest, rfl, hlen, hne, h⟩ | ⟨hc, rest, rfl, h⟩ |
            ⟨t, rest, rfl, ht, hf, h⟩
          · refine .inl ⟨hc, bs, rest ++ toks', by simp, hlen, hne, fun n hn hpos => ?_⟩
            rw [← List.append_assoc]
            exact ih _ (h n hn hpos)
          · exact .inr (.inl ⟨hc, rest ++ toks', rfl, ih _ h⟩)
          · exact .inr (.inr ⟨t, rest ++ toks', rfl, ht, hf, fun i hi => ih _ (h i hi)⟩)
      | .wait ts (.write bytes) =>
          simp only [Task.bind_await, Follows] at h ⊢
          obtain ⟨hc, hne, rest, rfl, h⟩ := h
          refine ⟨hc, hne, rest ++ toks', by simp, fun n hn hpos => ?_⟩
          rw [← List.append_assoc]
          exact ih _ (h n hn hpos)
      | .wait ts .flush =>
          simp only [Task.bind_await, Follows] at h ⊢
          obtain ⟨hc, rest, rfl, h⟩ := h
          exact ⟨hc, rest ++ toks', rfl, ih _ h⟩
      | .call c =>
          simp only [Task.bind_await, Follows] at h ⊢
          obtain ⟨r, rest, rfl, h⟩ := h
          exact ⟨r, rest ++ toks', rfl, ih _ h⟩

/-- A timer that cannot run out changes nothing. -/
theorem timeout {t : Task (Timed τ Stream C) σ α} {toks : List (Token τ C)} {T : τ}
    {Q : σ → Option α → Prop} (hT : ¬fires T)
    (h : Follows fires t toks fun s a => Q s (some a)) : Follows fires (t.timeout T) toks Q := by
  have hcalm : ∀ {ts : List τ}, Calm fires ts → Calm fires (T :: ts) := by
    intro ts hc t ht
    rcases List.mem_cons.mp ht with rfl | ht
    · exact hT
    · exact hc t ht
  induction t generalizing toks with
  | done s a => exact h
  | await s o k ih =>
      rcases o with ⟨ts, room | bytes | _⟩ | c
      · simp only [Task.timeout, Follows] at h ⊢
        rcases h with ⟨hc, bs, rest, rfl, hlen, hne, h⟩ | ⟨hc, rest, rfl, h⟩ |
          ⟨t, rest, rfl, ht, hf, h⟩
        · exact .inl ⟨hcalm hc, bs, rest, rfl, hlen, hne, fun n hn hpos => ih _ (h n hn hpos)⟩
        · exact .inr (.inl ⟨hcalm hc, rest, rfl, ih _ h⟩)
        · refine .inr (.inr ⟨t, rest, rfl, List.mem_cons_of_mem _ ht, hf, fun i hi => ?_⟩)
          rcases i with ⟨_ | i, hlt⟩
          · exact absurd hi hT
          · exact ih _ (h ⟨i, Nat.lt_of_succ_lt_succ hlt⟩ hi)
      · simp only [Task.timeout, Follows] at h ⊢
        obtain ⟨hc, hne, rest, rfl, h⟩ := h
        exact ⟨hcalm hc, hne, rest, rfl, fun n hn hpos => ih _ (h n hn hpos)⟩
      · simp only [Task.timeout, Follows] at h ⊢
        obtain ⟨hc, rest, rfl, h⟩ := h
        exact ⟨hcalm hc, rest, rfl, ih _ h⟩
      · simp only [Task.timeout, Follows] at h ⊢
        obtain ⟨r, rest, rfl, h⟩ := h
        exact ⟨r, rest, rfl, ih _ h⟩

/-! The rules for functions. -/

theorem seq {m : Async (Timed τ Stream C) σ ε α} {f : α → Async (Timed τ Stream C) σ ε β}
    {s : σ} {toks toks' : List (Token τ C)} {P : σ → α → Prop} {Q : σ → Except ε β → Prop}
    (h : Follows fires (m s) toks fun s' r => ∃ a, r = .ok a ∧ P s' a)
    (h' : ∀ s' a, P s' a → Follows fires (f a s') toks' Q) :
    Follows fires ((m >>= f) s) (toks ++ toks') Q := by
  refine bind (h.mono ?_)
  rintro s' r ⟨a, rfl, hP⟩
  exact h' s' a hP

/-- A sequence whose first part fails follows the script of that part. -/
theorem stop {m : Async (Timed τ Stream C) σ ε α} {f : α → Async (Timed τ Stream C) σ ε β}
    {s : σ} {toks : List (Token τ C)} {Q : σ → Except ε β → Prop}
    (h : Follows fires (m s) toks fun s' r => ∃ e, r = .error e ∧ Q s' (.error e)) :
    Follows fires ((m >>= f) s) toks Q := by
  rw [← List.append_nil toks]
  refine bind (h.mono ?_)
  rintro s' r ⟨e, rfl, hQ⟩
  exact ⟨rfl, hQ⟩

theorem within {m : Async (Timed τ Stream C) σ ε α} {s : σ} {toks : List (Token τ C)} {T : τ}
    {elapsed : ε'} {conv : ε → ε'} {Q : σ → Except ε' α → Prop} (hT : ¬fires T)
    (h : Follows fires (m s) toks fun s' r => Q s' (Async.outcome elapsed conv (some r))) :
    Follows fires (Async.within T elapsed conv m s) toks Q := by
  rw [← List.append_nil toks]
  exact bind ((timeout hT h).mono fun s' o hQ => ⟨rfl, hQ⟩)

theorem mapError {m : Async (Timed τ Stream C) σ ε α} {s : σ} {toks : List (Token τ C)}
    {conv : ε → ε'} {Q : σ → Except ε' α → Prop}
    (h : Follows fires (m s) toks fun s' r => Q s' (r.mapError conv)) :
    Follows fires (Async.mapError conv m s) toks Q := by
  rw [← List.append_nil toks]
  exact bind (h.mono fun s' r hQ => ⟨rfl, hQ⟩)

theorem attempt {m : Async (Timed τ Stream C) σ ε α} {s : σ} {toks : List (Token τ C)}
    {Q : σ → Except ε' (Except ε α) → Prop}
    (h : Follows fires (m s) toks fun s' r => Q s' (.ok r)) :
    Follows fires (Async.attempt m s) toks Q := by
  rw [← List.append_nil toks]
  exact bind (h.mono fun s' r hQ => ⟨rfl, hQ⟩)

theorem call (c : C.Op) (r : C.Reply c) (s : σ) :
    Follows fires (Async.call c s : Task (Timed τ Stream C) σ (Except ε (C.Reply c)))
      [.call c r] fun s' x => s' = s ∧ x = .ok r :=
  ⟨r, [], rfl, rfl, rfl, rfl⟩

/-- Waiting for bytes until a timer runs out that can. -/
theorem lapse {t : Task (Timed τ Stream C) σ α} {s : σ} {room : Nat}
    {k : (Timed τ Stream C).Reply (.wait [] (.read room)) → Task (Timed τ Stream C) σ α} {T : τ}
    (ht : t = .await s (.wait [] (.read room)) k) (hT : fires T) :
    Follows fires (t.timeout T) [.lapse T] fun s' o => s' = s ∧ o = none := by
  subst ht
  simp only [Task.timeout, Follows]
  refine .inr (.inr ⟨T, [], rfl, List.mem_singleton.mpr rfl, hT, fun i _ => ?_⟩)
  obtain rfl : i = ⟨0, Nat.one_pos⟩ := Fin.ext (Nat.lt_one_iff.mp i.isLt)
  exact ⟨rfl, rfl, rfl⟩

/-- Reading all of a frame. -/
theorem readLoop {n fuel : Nat} {fill : List UInt8 → σ → σ} {eof : Nat → ε}
    {io : IoError → ε} {filled bs : List UInt8} {s : σ} (hfill : KeepsLongest fill)
    (hn : filled.length + bs.length = n) (hfuel : bs.length ≤ fuel) :
    Follows fires (Library.readLoop n fill eof io fuel filled s : Task (Timed τ Stream C) σ _)
      (bs.map .recv) fun s' r =>
        r = .ok (filled ++ bs) ∧ s' = if bs = [] then s else fill (filled ++ bs) s := by
  induction fuel generalizing filled bs s with
  | zero =>
      obtain rfl : bs = [] := List.eq_nil_of_length_eq_zero (by omega)
      exact ⟨rfl, by simp, rfl⟩
  | succ fuel ih =>
      by_cases hbs : bs = []
      · subst hbs
        rw [readLoop_of_full (by simp at hn; omega)]
        exact ⟨rfl, by simp, rfl⟩
      · have hpos : 0 < bs.length := List.length_pos_iff.mpr hbs
        rw [readLoop_of_lt (by omega)]
        refine .inl ⟨nofun, bs, [], by simp, by omega, hbs, fun k hk hkpos => ?_⟩
        have htake : bs.take k ≠ [] := by simp [hbs]; omega
        simp only [htake, if_false, List.append_nil]
        refine (@ih (filled ++ bs.take k) (bs.drop k) _ ?_ ?_).mono ?_
        · simp only [List.length_append, List.length_take, List.length_drop]
          omega
        · simp only [List.length_drop]
          omega
        · rintro s' r ⟨rfl, rfl⟩
          simp only [List.append_assoc, List.take_append_drop, hbs, if_false]
          refine ⟨trivial, ?_⟩
          split
          · rename_i hdrop
            have hall : bs.take k = bs := by simpa [hdrop] using List.take_append_drop k bs
            rw [hall]
          · exact hfill _ _ _ (by rw [List.length_append, List.length_append]; omega)

/-- Reading a frame from a stream that has ended. -/
theorem readLoop_eof {n fuel : Nat} {fill : List UInt8 → σ → σ} {eof : Nat → ε}
    {io : IoError → ε} {s : σ} (hn : 0 < n) :
    Follows fires (Library.readLoop n fill eof io (fuel + 1) [] s : Task (Timed τ Stream C) σ _)
      [.eof] fun s' r => s' = s ∧ r = .error (eof 0) := by
  rw [readLoop_of_lt (by simpa using hn)]
  exact .inr (.inl ⟨nofun, [], rfl, rfl, rfl, rfl⟩)

/-- Writing all of a frame. -/
theorem writeLoop {fuel : Nat} {io : IoError → ε} {bytes : List UInt8} {s : σ}
    (hfuel : bytes.length ≤ fuel) :
    Follows fires (Library.writeLoop io fuel bytes s : Task (Timed τ Stream C) σ _)
      (bytes.map .send) fun s' r => s' = s ∧ r = .ok () := by
  induction fuel generalizing bytes with
  | zero =>
      obtain rfl : bytes = [] := List.eq_nil_of_length_eq_zero (by omega)
      exact ⟨rfl, rfl, rfl⟩
  | succ fuel ih =>
      by_cases hb : bytes = []
      · subst hb
        exact ⟨rfl, rfl, rfl⟩
      · rw [writeLoop_of_ne_nil hb]
        refine ⟨nofun, hb, [], by simp, fun n hn hpos => ?_⟩
        simp only [Nat.pos_iff_ne_zero.mp hpos, if_false, List.append_nil]
        exact ih (by simp only [List.length_drop]; omega)

theorem flush {io : IoError → ε} {s : σ} :
    Follows fires (flushStream io s : Task (Timed τ Stream C) σ _) [.flush]
      fun s' r => s' = s ∧ r = .ok () := by
  rw [flushStream_apply]
  exact ⟨nofun, [], rfl, rfl, rfl, rfl⟩

end Follows

end

/-! ### Steps of a conversation -/

section

variable {τ σ α : Type} {C : Interface} {fires : τ → Prop}

/-- Let the awaited stream operation move at most `n + 1` bytes: the task that
remains, what is left of the bytes under way to it, and the bytes it has sent. -/
def Task.progress (inbox : Inbox) (n : Nat) :
    Task (Timed τ Stream C) σ α → Option (Task (Timed τ Stream C) σ α × Inbox × List UInt8)
  | .await _ (.wait _ a) k =>
      (inbox.answer a (.ready (n + 1))).map fun r =>
        (k (.inr r), inbox.consume (a.received r).length, a.sent r)
  | _ => none

/-- Let the timer with this index run out, if it is `T`. -/
def Task.elapse [DecidableEq τ] (T : τ) (i : Nat) :
    Task (Timed τ Stream C) σ α → Option (Task (Timed τ Stream C) σ α)
  | .await _ (.wait ts _) k =>
      if h : i < ts.length then
        if ts.get ⟨i, h⟩ = T then some (k (.inl ⟨i, h⟩)) else none
      else none
  | _ => none

/-- The task waits for bytes. -/
def Task.isReading : Task (Timed τ Stream C) σ α → Bool
  | .await _ (.wait _ (.read _)) _ => true
  | _ => false

/-- The tokens at which the party waits without receiving anything. -/
def Token.isWait : Token τ C → Bool
  | .eof => true
  | .lapse _ => true
  | _ => false

/-- After a wait without bytes the script makes no more moves. -/
def Closing : List (Token τ C) → Prop
  | [] => True
  | x :: rest => (x.isWait = true → moves rest = []) ∧ Closing rest

theorem Closing.of_append {a b : List (Token τ C)} (h : Closing (a ++ b)) : Closing b := by
  induction a with
  | nil => exact h
  | cons x a ih => exact ih h.2

theorem Closing.left {a b : List (Token τ C)} (h : Closing (a ++ b)) : Closing a := by
  induction a with
  | nil => trivial
  | cons x a ih =>
      refine ⟨fun hx => ?_, ih h.2⟩
      have hnil : moves a ++ moves b = [] := moves_append a b ▸ h.1 hx
      exact (List.append_eq_nil_iff.mp hnil).1

/-- Nothing is moved after the part of a script that contains a wait. -/
theorem Closing.right_of_wait {a b : List (Token τ C)} (h : Closing (a ++ b)) {x : Token τ C}
    (hx : x ∈ a) (hw : x.isWait = true) : moves b = [] := by
  induction a with
  | nil => cases hx
  | cons y a ih =>
      rcases List.mem_cons.mp hx with rfl | hx
      · have hnil : moves a ++ moves b = [] := moves_append a b ▸ h.1 hw
        exact (List.append_eq_nil_iff.mp hnil).2
      · exact ih h.2 hx

/-- What a step of a party has done: it consumed a part of the script, and the parties
are still in step. -/
structure Stepped (fires : τ → Prop) (t' : Task (Timed τ Stream C) σ α)
    (toks : List (Token τ C)) (Q : σ → α → Prop) (tail b : List Move) (ab ba : List UInt8)
    (gone toks' : List (Token τ C)) : Prop where
  script : toks = gone ++ toks'
  moved : gone ≠ []
  silent : ∀ c r, .call c r ∉ gone
  follows : Follows fires t' toks' Q
  inFlight : InFlight (moves toks' ++ tail) b ab ba

/-- The party has received the first bytes of those it waits for. -/
theorem Follows.receive {room : Nat} {bs got left : List UInt8} {rest : List (Token τ C)}
    {f : { bytes : List UInt8 // bytes.length ≤ room } → Task (Timed τ Stream C) σ α}
    {Q : σ → α → Prop} {tail b : List Move} {ab : List UInt8} {hgot : got.length ≤ room}
    (hlen : bs.length = room)
    (h : ∀ (n : Nat) (hn : (bs.take n).length ≤ room), 0 < n →
      Follows fires (f ⟨bs.take n, hn⟩) ((bs.drop n).map .recv ++ rest) Q)
    (hne : got ≠ [])
    (hnet : InFlight (bs.map .recv ++ (moves rest ++ tail)) b ab (got ++ left)) :
    Stepped fires (f ⟨got, hgot⟩) (bs.map .recv ++ rest) Q tail b (ab ++ []) left
      (got.map .recv) ((bs.drop got.length).map .recv ++ rest) := by
  obtain ⟨a', ha', hnet⟩ := hnet.recv hne
  obtain ⟨hchunk, rfl⟩ := Move.recv_prefix ha' (hlen ▸ hgot)
  have hpos := List.length_pos_iff.mpr hne
  have hnext := h got.length (hchunk ▸ hgot) hpos
  simp only [← hchunk] at hnext
  have hbegun : got <+: bs := by
    rw [hchunk]
    exact List.take_prefix _ _
  refine ⟨?_, by simpa using hne, ?_, hnext, ?_⟩
  · rw [← List.append_assoc, ← List.map_append, List.prefix_iff_eq_append.mp hbegun]
  · intro c r hmem
    obtain ⟨d, -, hd⟩ := List.mem_map.mp hmem
    cases hd
  · simpa only [moves_append, moves_map_recv, List.append_assoc, List.append_nil] using hnet

/-- One operation of a party that follows its script. -/
theorem Follows.progress {t t' : Task (Timed τ Stream C) σ α} {toks : List (Token τ C)}
    {Q : σ → α → Prop} {tail b : List Move} {ab out : List UInt8} {inbox inbox' : Inbox} {n : Nat}
    (h : Follows fires t toks Q) (hp : t.progress inbox n = some (t', inbox', out))
    (hnet : InFlight (moves toks ++ tail) b ab inbox.bytes) (hclosing : Closing toks)
    (htail : ∀ x ∈ toks, x.isWait = true → tail = [])
    (hclosed : inbox.closed = true → (∀ d, .send d ∉ b) ∧ ∀ T, .lapse T ∉ toks) :
    inbox'.closed = inbox.closed ∧
      ∃ gone toks', Stepped fires t' toks Q tail b (ab ++ out) inbox'.bytes gone toks' := by
  match t with
  | .done s a => cases hp
  | .await s (.call c) k => cases hp
  | .await s (.wait ts (.write bytes)) k =>
      obtain ⟨-, hne, rest, rfl, h⟩ := h
      cases hp
      have hpos : 0 < bytes.length := List.length_pos_iff.mpr hne
      have hn := h (min (n + 1) bytes.length) (Nat.min_le_right _ _) (by omega)
      refine ⟨rfl, (bytes.take (min (n + 1) bytes.length)).map .send, _, ?_, ?_, ?_, hn, ?_⟩
      · rw [← List.append_assoc, ← List.map_append, List.take_append_drop]
      · simp [hne]
      · intro c r hmem
        obtain ⟨d, -, hd⟩ := List.mem_map.mp hmem
        cases hd
      · rw [← List.take_append_drop (min (n + 1) bytes.length) bytes] at hnet
        simp only [List.map_append, moves_append, moves_map_send, List.append_assoc] at hnet ⊢
        exact hnet.send
  | .await s (.wait ts .flush) k =>
      obtain ⟨-, rest, rfl, h⟩ := h
      cases hp
      exact ⟨rfl, [.flush], rest, rfl, by simp, by simp, h, by simpa using hnet⟩
  | .await s (.wait ts (.read room)) k =>
      rcases h with ⟨-, bs, rest, rfl, hlen, hne, h⟩ | ⟨-, rest, rfl, h⟩ | ⟨T, rest, rfl, -, -, -⟩
      · obtain ⟨c, cs, rfl⟩ := List.exists_cons_of_ne_nil hne
        have hbytes : inbox.bytes ≠ [] := by
          intro hnil
          rw [Task.progress, Inbox.answer, if_pos hnil] at hp
          split at hp
          · rename_i hcl
            exact hnet.ne_nil_of_recv (hclosed hcl).1 hnil
          · cases hp
        rw [Task.progress, Inbox.answer, if_neg hbytes, if_neg (by simp)] at hp
        cases hp
        refine ⟨rfl, _, _, receive (f := fun chunk => k (.inr (.ok chunk))) hlen h ?_ ?_⟩
        · have hpos := List.length_pos_iff.mpr hbytes
          simp only [List.length_cons] at hlen
          rw [← List.length_pos_iff, List.length_take]
          omega
        · have htake := List.prefix_iff_eq_append.mp
            (List.take_prefix (min (n + 1) room) inbox.bytes)
          rw [Inbox.consume_bytes, StreamOp.received, htake]
          simpa only [moves_append, moves_map_recv, List.append_assoc] using hnet
      · have hnil : inbox.bytes = [] := by
          rw [moves_eof_cons, hclosing.1 rfl, htail .eof (by simp) rfl] at hnet
          exact hnet.eq_nil_of_left_nil.1
        rw [Task.progress, Inbox.answer, if_pos hnil] at hp
        split at hp
        · cases hp
          exact ⟨rfl, [.eof], rest, rfl, by simp, by simp, h, by simpa [hnil] using hnet⟩
        · cases hp
      · have hnil : inbox.bytes = [] := by
          rw [moves_lapse_cons, hclosing.1 rfl, htail (.lapse T) (by simp) rfl] at hnet
          exact hnet.eq_nil_of_left_nil.1
        rw [Task.progress, Inbox.answer, if_pos hnil] at hp
        split at hp
        · rename_i hcl
          exact absurd (by simp) ((hclosed hcl).2 T)
        · cases hp

/-- A timer runs out only where the script waits for it. -/
theorem Follows.elapse [DecidableEq τ] {t t' : Task (Timed τ Stream C) σ α}
    {toks : List (Token τ C)} {Q : σ → α → Prop} {T : τ} {i : Nat} (h : Follows fires t toks Q)
    (hT : fires T) (hp : t.elapse T i = some t') :
    ∃ T' rest, toks = .lapse T' :: rest ∧ Follows fires t' rest Q := by
  match t with
  | .done s a => cases hp
  | .await s (.call c) k => cases hp
  | .await s (.wait ts o) k =>
      simp only [Task.elapse] at hp
      split at hp
      · rename_i hi
        split at hp
        · rename_i hget
          cases hp
          have hmem : T ∈ ts := hget ▸ List.get_mem ts ⟨i, hi⟩
          match o with
          | .write bytes => exact absurd hT (h.1 T hmem)
          | .flush => exact absurd hT (h.1 T hmem)
          | .read room =>
              rcases h with ⟨hc, -⟩ | ⟨hc, -⟩ | ⟨T', rest, rfl, -, -, h⟩
              · exact absurd hT (hc T hmem)
              · exact absurd hT (hc T hmem)
              · exact ⟨T', rest, rfl, h ⟨i, hi⟩ (hget ▸ hT)⟩
        · cases hp
      · cases hp

/-- Only a task that waits for bytes which are not there does not go on. -/
theorem Task.progress_eq_none {t : Task (Timed τ Stream C) σ α} {inbox : Inbox} {n : Nat}
    (hp : t.progress inbox n = none) :
    (∃ s a, t = .done s a) ∨ (∃ s c k, t = .await s (.call c) k) ∨
      (t.isReading = true ∧ inbox.bytes = [] ∧ inbox.closed = false) := by
  match t with
  | .done s a => exact .inl ⟨s, a, rfl⟩
  | .await s (.call c) k => exact .inr (.inl ⟨s, c, k, rfl⟩)
  | .await s (.wait ts (.write bytes)) k => cases hp
  | .await s (.wait ts .flush) k => cases hp
  | .await s (.wait ts (.read room)) k =>
      refine .inr (.inr ⟨rfl, ?_⟩)
      simp only [Task.progress, Inbox.answer, Nat.add_one_ne_zero, if_false] at hp
      split at hp
      · rename_i hnil
        split at hp
        · cases hp
        · rename_i hcl
          exact ⟨hnil, by simpa using hcl⟩
      · cases hp

/-- What the script has next where the task waits for bytes. -/
theorem Follows.reads_next [DecidableEq τ] {t : Task (Timed τ Stream C) σ α}
    {toks : List (Token τ C)} {Q : σ → α → Prop} (h : Follows fires t toks Q)
    (hr : t.isReading = true) :
    (∃ b rest, toks = .recv b :: rest) ∨ (∃ rest, toks = .eof :: rest) ∨
      ∃ T rest i, toks = .lapse T :: rest ∧ fires T ∧ (t.elapse T i).isSome = true := by
  match t with
  | .done s a => cases hr
  | .await s (.call c) k => cases hr
  | .await s (.wait ts (.write bytes)) k => cases hr
  | .await s (.wait ts .flush) k => cases hr
  | .await s (.wait ts (.read room)) k =>
      rcases h with ⟨-, bs, rest, rfl, -, hne, -⟩ | ⟨-, rest, rfl, -⟩ | ⟨T, rest, rfl, hT, hf, -⟩
      · obtain ⟨c, cs, rfl⟩ := List.exists_cons_of_ne_nil hne
        exact .inl ⟨c, cs.map .recv ++ rest, rfl⟩
      · exact .inr (.inl ⟨rest, rfl⟩)
      · obtain ⟨⟨i, hi⟩, hget⟩ := List.mem_iff_get.mp hT
        refine .inr (.inr ⟨T, rest, i, rfl, hf, ?_⟩)
        simp [Task.elapse, hi, ← hget]

end

end Wagonet.Library
