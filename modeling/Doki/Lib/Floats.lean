import Mathlib.Algebra.Order.Ring.Int

/-!
# Integers as floating-point numbers

The whole number nearest to an integer among those with a significand of 53 bits,
ties to even: what an integer becomes as a `float64` (`Floats.nearest`), below the
largest one. It is an integer again, and rounding it again changes nothing
(`Floats.nearest_nearest`); the numbers that are not changed are those with a
significand of 53 bits (`Floats.roundNat_eq_iff`).
-/

namespace Floats

/-- The natural number with 53 significant bits nearest to `n`, ties to even. -/
def roundNat (n : ℕ) : ℕ :=
  let s := Nat.log2 n - 52
  let q := n / 2 ^ s
  let r := n % 2 ^ s
  (if 2 ^ s < 2 * r ∨ 2 ^ s = 2 * r ∧ q % 2 = 1 then q + 1 else q) * 2 ^ s

/-- The integer with 53 significant bits nearest to `n`, ties to even. -/
def nearest (n : ℤ) : ℤ := n.sign * roundNat n.natAbs

example : nearest (2 ^ 53 + 1) = 2 ^ 53 ∧ nearest (-(2 ^ 53 + 3)) = -(2 ^ 53 + 4) := by
  decide +kernel

theorem roundNat_of_dvd {n : ℕ} (h : 2 ^ (Nat.log2 n - 52) ∣ n) : roundNat n = n := by
  have hpos : 0 < 2 ^ (Nat.log2 n - 52) := Nat.two_pow_pos _
  rw [roundNat, Nat.mod_eq_zero_of_dvd h, if_neg (by omega)]
  exact Nat.div_mul_cancel h

theorem roundNat_of_lt {n : ℕ} (h : n < 2 ^ 53) : roundNat n = n := by
  apply roundNat_of_dvd
  rcases Nat.eq_zero_or_pos n with rfl | hpos
  · exact Nat.dvd_zero _
  · have := (Nat.log2_lt hpos.ne').2 h
    rw [Nat.sub_eq_zero_of_le (by omega)]
    exact Nat.one_dvd _

theorem roundNat_mul_pow {q : ℕ} (hq : q ≤ 2 ^ 53) (s : ℕ) : roundNat (q * 2 ^ s) = q * 2 ^ s := by
  apply roundNat_of_dvd
  rcases Nat.eq_zero_or_pos q with rfl | hpos
  · rw [Nat.zero_mul]
    exact Nat.dvd_zero _
  rcases hq.lt_or_eq with hlt | rfl
  · have : Nat.log2 (q * 2 ^ s) < 53 + s := by
      rw [Nat.log2_lt (Nat.mul_pos hpos (Nat.two_pow_pos s)).ne', Nat.pow_add]
      exact Nat.mul_lt_mul_of_pos_right hlt (Nat.two_pow_pos s)
    exact Nat.dvd_mul_left_of_dvd (Nat.pow_dvd_pow 2 (by omega)) q
  · rw [← Nat.pow_add, Nat.log2_two_pow]
    exact Nat.pow_dvd_pow 2 (by omega)

/-- Rounding gives a multiple of a power of two, by a factor of 53 bits or the next
    number. -/
theorem exists_roundNat_eq (n : ℕ) : ∃ q s, q ≤ 2 ^ 53 ∧ roundNat n = q * 2 ^ s := by
  rcases Nat.lt_or_ge n (2 ^ 53) with hlt | hge
  · exact ⟨n, 0, hlt.le, by rw [roundNat_of_lt hlt, Nat.pow_zero, Nat.mul_one]⟩
  · have hn : n ≠ 0 := by omega
    have hlog : 53 ≤ Nat.log2 n := (Nat.le_log2 hn).2 hge
    have hup : n < 2 ^ 53 * 2 ^ (Nat.log2 n - 52) := by
      rw [← Nat.pow_add, ← Nat.log2_lt hn]
      omega
    have hq : n / 2 ^ (Nat.log2 n - 52) < 2 ^ 53 :=
      Nat.div_lt_of_lt_mul (by rwa [Nat.mul_comm])
    rw [roundNat]
    refine ⟨_, _, ?_, rfl⟩
    split <;> omega

theorem roundNat_roundNat (n : ℕ) : roundNat (roundNat n) = roundNat n := by
  obtain ⟨q, s, hq, h⟩ := exists_roundNat_eq n
  rw [h, roundNat_mul_pow hq]

/-- Rounding keeps exactly the numbers with a significand of 53 bits. -/
theorem roundNat_eq_iff {n : ℕ} : roundNat n = n ↔ ∃ m e, m < 2 ^ 53 ∧ n = m * 2 ^ e := by
  constructor
  · intro h
    obtain ⟨q, s, hq, hn⟩ := exists_roundNat_eq n
    rw [h] at hn
    rcases hq.lt_or_eq with hlt | rfl
    · exact ⟨q, s, hlt, hn⟩
    · exact ⟨1, 53 + s, by decide, by rw [hn, Nat.pow_add, Nat.one_mul]⟩
  · rintro ⟨m, e, hm, rfl⟩
    exact roundNat_mul_pow hm.le e

theorem nearest_natCast (n : ℕ) : nearest n = roundNat n := by
  rcases Nat.eq_zero_or_pos n with rfl | hn
  · rfl
  · rw [nearest, Int.sign_natCast_of_ne_zero hn.ne', Int.natAbs_natCast, Int.one_mul]

theorem nearest_nearest (n : ℤ) : nearest (nearest n) = nearest n := by
  rcases eq_or_ne n 0 with rfl | hn
  · decide
  · rw [nearest, nearest, Int.natAbs_mul, Int.natAbs_sign_of_ne_zero hn, Int.natAbs_natCast,
      Nat.one_mul, roundNat_roundNat]
    rcases Nat.eq_zero_or_pos (roundNat n.natAbs) with h | h
    · rw [h]
      simp
    · rw [Int.sign_mul, Int.sign_sign, Int.sign_natCast_of_ne_zero h.ne', Int.mul_one]

end Floats
