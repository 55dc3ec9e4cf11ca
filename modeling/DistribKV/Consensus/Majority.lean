import Mathlib.Data.Finset.Card

/-!
# Majorities

Two strict majorities of one finite population meet.
-/

namespace Consensus

variable {ι : Type*}

/-- Two parts that together are larger than the population meet. -/
theorem exists_mem_inter_of_card_lt {population left right : Finset ι}
    (leftInside : left ⊆ population) (rightInside : right ⊆ population)
    (large : population.card < left.card + right.card) : ∃ i, i ∈ left ∧ i ∈ right := by
  classical
  by_contra disjoint
  have separated : Disjoint left right := by
    rw [Finset.disjoint_left]
    intro i leftMem rightMem
    exact disjoint ⟨i, leftMem, rightMem⟩
  have unionLe : (left ∪ right).card ≤ population.card :=
    Finset.card_le_card (Finset.union_subset leftInside rightInside)
  rw [Finset.card_union_of_disjoint separated] at unionLe
  omega

/-- A part of the population larger than half of it. -/
def Majority (population part : Finset ι) : Prop :=
  part ⊆ population ∧ population.card < 2 * part.card

instance [DecidableEq ι] (population part : Finset ι) :
    Decidable (Majority population part) :=
  inferInstanceAs (Decidable (_ ∧ _))

namespace Majority

variable {population left right : Finset ι}

theorem exists_mem_inter (leftMajority : Majority population left)
    (rightMajority : Majority population right) : ∃ i, i ∈ left ∧ i ∈ right := by
  have leftLarge := leftMajority.2
  have rightLarge := rightMajority.2
  exact exists_mem_inter_of_card_lt leftMajority.1 rightMajority.1 (by omega)

/-- Enlarging a majority inside the population keeps it one. -/
theorem mono (leftMajority : Majority population left) (subset : left ⊆ right)
    (inside : right ⊆ population) : Majority population right :=
  ⟨inside, leftMajority.2.trans_le
    (Nat.mul_le_mul_left 2 (Finset.card_le_card subset))⟩

end Majority

end Consensus
