import Mathlib

/-!
Deadlocks among locks.

Each thread waits for at most one lock, and a lock is held by at most one thread.
When the locks are taken in an order, no threads wait for each other in a circle.
-/

namespace Wagonet.Library

variable {G M R : Type*} {holder : M → Option G} {wanted : G → Option M}

/-- The first thread waits for a lock that the second one holds. -/
def WaitsFor (holder : M → Option G) (wanted : G → Option M) (g g' : G) : Prop :=
  ∃ m, wanted g = some m ∧ holder m = some g'

variable [Preorder R] (rank : M → R)

/-- Along a chain of waiting threads the locks only get greater. -/
theorem WaitsFor.rank_le (h : ∀ g m m', wanted g = some m → holder m' = some g → rank m' < rank m)
    {g g' : G} {m : M} (hg : Relation.TransGen (WaitsFor holder wanted) g g')
    (hm : wanted g = some m) : ∃ m', holder m' = some g' ∧ rank m ≤ rank m' := by
  induction hg with
  | single hw =>
      obtain ⟨m', hm', hholder⟩ := hw
      cases hm.symm.trans hm'
      exact ⟨m, hholder, le_refl _⟩
  | tail _ hw ih =>
      obtain ⟨m', hm', hle⟩ := ih
      obtain ⟨m'', hm'', hholder⟩ := hw
      exact ⟨m'', hholder, hle.trans (h _ m'' m' hm'' hm').le⟩

/-- No circle of threads, each waiting for a lock that the next one holds, if every
thread waits only for locks that are greater than those it holds. -/
theorem WaitsFor.acyclic (h : ∀ g m m', wanted g = some m → holder m' = some g → rank m' < rank m)
    (g : G) : ¬Relation.TransGen (WaitsFor holder wanted) g g := by
  intro hg
  obtain ⟨g', hw, -⟩ := Relation.TransGen.head'_iff.mp hg
  obtain ⟨m, hm, -⟩ := hw
  obtain ⟨m', hm', hle⟩ := WaitsFor.rank_le rank h hg hm
  exact lt_irrefl _ (hle.trans_lt (h g m m' hm hm'))

end Wagonet.Library
