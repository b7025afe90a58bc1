import Mathlib

/-!
Two parties and the link between them.

A link delivers what is sent in order and unchanged, at some later time or not at
all. A history is told here by what each party has seen for itself: the two lists of
events are linked if they are those of some run in which nothing is received before
the other party has sent it.
-/

namespace Wagonet.Library

/-- One end of a link: what is sent and what is received in one event. -/
structure Port (E B : Type) where
  sends : E → List B
  receives : E → List B

variable {E F B : Type}

namespace Port

def sent (p : Port E B) (es : List E) : List B := es.flatMap p.sends

def received (p : Port E B) (es : List E) : List B := es.flatMap p.receives

variable (p : Port E B)

@[simp] theorem sent_nil : p.sent [] = [] := rfl

@[simp] theorem received_nil : p.received [] = [] := rfl

@[simp] theorem sent_append (es es' : List E) : p.sent (es ++ es') = p.sent es ++ p.sent es' :=
  List.flatMap_append

@[simp] theorem received_append (es es' : List E) :
    p.received (es ++ es') = p.received es ++ p.received es' := List.flatMap_append

theorem sent_mono {es es' : List E} (h : es <+: es') : p.sent es <+: p.sent es' := by
  obtain ⟨rest, rfl⟩ := h
  exact ⟨p.sent rest, (p.sent_append es rest).symm⟩

end Port

/-- Some run of the two parties consists of these events. -/
inductive Linked (p : Port E B) (q : Port F B) : List E → List F → Prop
  | nil : Linked p q [] []
  | left {es : List E} {fs : List F} {e : E} :
      Linked p q es fs → p.received (es ++ [e]) <+: q.sent fs → Linked p q (es ++ [e]) fs
  | right {es : List E} {fs : List F} {f : F} :
      Linked p q es fs → q.received (fs ++ [f]) <+: p.sent es → Linked p q es (fs ++ [f])

namespace Linked

variable {p : Port E B} {q : Port F B} {es es' : List E} {fs fs' : List F}

theorem symm (h : Linked p q es fs) : Linked q p fs es := by
  induction h with
  | nil => exact .nil
  | left _ hrec ih => exact ih.right hrec
  | right _ hrec ih => exact ih.left hrec

/-- Everything that was received was sent before. -/
theorem received_left (h : Linked p q es fs) : p.received es <+: q.sent fs := by
  induction h with
  | nil => exact List.prefix_rfl
  | left _ hrec _ => exact hrec
  | right _ _ ih => exact ih.trans (q.sent_mono (List.prefix_append _ _))

theorem received_right (h : Linked p q es fs) : q.received fs <+: p.sent es :=
  h.symm.received_left

/-- At any moment in the history of one party the other one had come to some point. -/
theorem before (h : Linked p q (es ++ es') fs) :
    ∃ fs₁ fs₂, fs = fs₁ ++ fs₂ ∧ Linked p q es fs₁ := by
  generalize hall : es ++ es' = all at h
  induction h generalizing es' with
  | nil =>
      obtain ⟨rfl, -⟩ := List.append_eq_nil_iff.mp hall
      exact ⟨[], [], rfl, .nil⟩
  | left h hrec ih =>
      rcases List.eq_nil_or_concat es' with rfl | ⟨init, e, rfl⟩
      · rw [List.append_nil] at hall
        subst hall
        exact ⟨_, [], (List.append_nil _).symm, h.left hrec⟩
      · rw [List.concat_eq_append, ← List.append_assoc] at hall
        exact ih (List.append_inj' hall rfl).1
  | right h hrec ih =>
      obtain ⟨fs₁, fs₂, rfl, h₁⟩ := ih hall
      exact ⟨fs₁, fs₂ ++ [_], by rw [List.append_assoc], h₁⟩

/-- Of two lists one begins with the other, and it still does without its last element. -/
theorem comparable_of_concat {α : Type} {xs ys : List α} {x : α}
    (h : xs <+: ys ++ [x] ∨ ys ++ [x] <+: xs) : xs <+: ys ∨ ys <+: xs := by
  rcases h with h | h
  · rcases List.prefix_concat_iff.mp h with rfl | h
    · exact .inr (List.prefix_append _ _)
    · exact .inl h
  · exact .inr ((List.prefix_append _ _).trans h)

/-- The step of one party in the history without its beginning. -/
theorem drop_left {e : E} (h : Linked p q (es.drop es'.length) (fs.drop fs'.length))
    (hrec : p.received (es ++ [e]) <+: q.sent fs) (hes : es' <+: es ++ [e] ∨ es ++ [e] <+: es')
    (hfs : fs' <+: fs ∨ fs <+: fs') (hsame : p.received es' = q.sent fs') :
    Linked p q ((es ++ [e]).drop es'.length) (fs.drop fs'.length) := by
  rcases Nat.lt_or_ge es.length es'.length with hlt | hge
  · rw [List.drop_of_length_le (by rw [List.length_append, List.length_singleton]; omega)]
    rwa [List.drop_of_length_le (by omega)] at h
  · have hpre : es' <+: es := by
      rcases comparable_of_concat hes with hpre | hpre
      · exact hpre
      · rw [hpre.eq_of_length (Nat.le_antisymm hpre.length_le hge)]
    obtain ⟨es, rfl⟩ := hpre
    rw [List.append_assoc, List.drop_left]
    rw [List.drop_left] at h
    rw [List.append_assoc, p.received_append, hsame] at hrec
    refine h.left ?_
    rcases hfs with ⟨fs, rfl⟩ | hpre
    · rw [q.sent_append, List.prefix_append_right_inj] at hrec
      rwa [List.drop_left]
    · -- the other party has not even sent what was received at the beginning
      have hlen := (hrec.trans (q.sent_mono hpre)).length_le
      rw [List.length_append] at hlen
      rw [List.eq_nil_of_length_eq_zero (l := p.received (es ++ [e])) (by omega)]
      exact List.nil_prefix

theorem drop (h : Linked p q es fs) (hes : es' <+: es ∨ es <+: es') (hfs : fs' <+: fs ∨ fs <+: fs')
    (hleft : p.received es' = q.sent fs') (hright : q.received fs' = p.sent es') :
    Linked p q (es.drop es'.length) (fs.drop fs'.length) := by
  induction h with
  | nil =>
      rw [List.drop_nil, List.drop_nil]
      exact .nil
  | left _ hrec ih => exact (ih (comparable_of_concat hes) hfs).drop_left hrec hes hfs hleft
  | right _ hrec ih =>
      exact ((ih hes (comparable_of_concat hfs)).symm.drop_left hrec hfs hes hright).symm

/-- Where two beginnings match, so that neither party has sent more than the other has
received, the rest is a history of its own. -/
theorem tail (h : Linked p q (es' ++ es) (fs' ++ fs)) (hleft : p.received es' = q.sent fs')
    (hright : q.received fs' = p.sent es') : Linked p q es fs := by
  have hdrop := h.drop (.inl (List.prefix_append es' es)) (.inl (List.prefix_append fs' fs)) hleft
    hright
  rwa [List.drop_left, List.drop_left] at hdrop

end Linked

end Wagonet.Library
