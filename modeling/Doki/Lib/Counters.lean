import Mathlib.Data.Nat.Basic

/-!
# Counters of 64 bits

A counter is a natural number here, and a word of 64 bits in the machine, where the
number after the last one (`Counter.max`) is 0. `Counter.next` is the increment
of the machine (`Counter.next_toNat`). It is the successor as long as it is not 0
(`Counter.next_of_pos`), and in particular where it leads forward
(`Counter.next_of_lt`).
-/

namespace Counter

/-- The last value of a counter. -/
def max : ℕ := 18446744073709551615

/-- The value after `n`: a counter starts again from 0 after its last value. -/
def next (n : ℕ) : ℕ := if n = max then 0 else n + 1

variable {n m : ℕ}

@[simp] theorem next_max : next max = 0 := rfl

theorem next_of_ne (h : n ≠ max) : next n = n + 1 := if_neg h

theorem next_of_pos (h : 0 < next n) : next n = n + 1 := by
  rw [next] at h ⊢
  split_ifs at h ⊢
  · exact absurd h (lt_irrefl 0)
  · rfl

theorem next_of_lt (h : n < next n) : next n = n + 1 :=
  next_of_pos (lt_of_le_of_lt (Nat.zero_le n) h)

theorem next_le (n : ℕ) : next n ≤ n + 1 := by
  rw [next]
  split_ifs
  · exact Nat.zero_le _
  · exact le_rfl

theorem next_ne_self (n : ℕ) : next n ≠ n := by
  rw [next]
  split_ifs with h
  · rw [h]
    decide
  · exact Nat.succ_ne_self n

/-- What is one after the other has not wrapped around. -/
theorem next_of_next_eq (h : next n = m + 1) : next m = m + 1 := by
  refine next_of_ne fun hm => ?_
  rcases eq_or_ne n max with rfl | hn
  · cases h
  · rw [next_of_ne hn] at h
    omega

/-- The increment leads forward exactly before the last value. -/
theorem lt_next_iff : n < next n ↔ n ≠ max := by
  refine ⟨?_, fun h => by rw [next_of_ne h]; exact Nat.lt_succ_self n⟩
  rintro h rfl
  exact Nat.not_lt_zero _ h

/-- The increment of the machine. -/
theorem next_toNat (n : UInt64) : next n.toNat = (n + 1).toNat := by
  have hlt := n.toNat_lt_size
  rw [UInt64.toNat_add, next]
  split_ifs with h
  · rw [h]
    rfl
  · refine (Nat.mod_eq_of_lt ?_).symm
    have hne : n.toNat ≠ 18446744073709551615 := h
    simp only [UInt64.size] at hlt ⊢
    omega

end Counter
