import Mathlib.Data.Finset.Card

/-!
# Majorities

The quorums of a finite set of `n` members are its subsets of at least
`n / 2 + 1` members. Two of them always share a member
(`IsMajority.exists_common`), whatever the parity of `n`.
-/

namespace Majority

variable {α : Type*} [DecidableEq α] {R P Q : Finset α}

/-- `Q` is a majority of `R`: at least `n / 2 + 1` of its `n` members. -/
structure IsMajority (R Q : Finset α) : Prop where
  subset : Q ⊆ R
  card_le : R.card / 2 + 1 ≤ Q.card

/-- Two majorities of a set share a member. -/
theorem IsMajority.exists_common (hP : IsMajority R P) (hQ : IsMajority R Q) :
    ∃ a, a ∈ P ∧ a ∈ Q := by
  have hcard : R.card < P.card + Q.card := by
    have := hP.card_le
    have := hQ.card_le
    omega
  obtain ⟨a, ha⟩ := Finset.inter_nonempty_of_card_lt_card_add_card hP.subset hQ.subset hcard
  exact ⟨a, Finset.mem_inter.1 ha⟩

end Majority
