import HostBridge.Decimal.Shortest
import Mathlib.Algebra.Order.Field.Power
import Mathlib.Data.Rat.Floor
import Mathlib.Tactic.NormNum
import Mathlib.Tactic.Ring

/-!
# Decimals as rational numbers

The value of a decimal, and what its places say about how great it is (`Scaled.value_lt`,
`Scaled.value_ge`).
-/

namespace HostBridge.Decimal

/-- A power with an integer exponent is a quotient of two with natural ones, of which one is `1`. -/
theorem pow_toNat {b : ℚ} (positive : 0 < b) (k : ℤ) : b ^ k.toNat = b ^ k * b ^ (-k).toNat := by
  rcases Int.le_total 0 k with above | below
  · rw [Int.toNat_eq_zero.2 (by omega : -k ≤ 0), pow_zero, mul_one, ← zpow_natCast,
      Int.toNat_of_nonneg above]
  · rw [Int.toNat_eq_zero.2 below, ← zpow_natCast b (-k).toNat, Int.toNat_of_nonneg (by omega),
      ← zpow_add₀ positive.ne', add_neg_cancel, zpow_zero, pow_zero]

theorem ten_zpow_pos (k : ℤ) : (0 : ℚ) < 10 ^ k :=
  zpow_pos (by norm_num) k

theorem ten_zpow_add (k l : ℤ) : (10 : ℚ) ^ (k + l) = 10 ^ k * 10 ^ l :=
  zpow_add₀ (by norm_num) k l

theorem ten_zpow_pred (k : ℤ) : (10 : ℚ) ^ k = 10 * 10 ^ (k - 1) := by
  have exponent : k = 1 + (k - 1) := by omega
  conv_lhs => rw [exponent, ten_zpow_add, zpow_one]

theorem ten_zpow_mono {k l : ℤ} (order : k ≤ l) : (10 : ℚ) ^ k ≤ 10 ^ l :=
  zpow_le_zpow_right₀ (by norm_num) order

/-- A power of ten is at least the power of eight. -/
theorem two_zpow_le_ten_zpow {k l : ℤ} (positive : 0 ≤ l) (order : k ≤ 3 * l) :
    (2 : ℚ) ^ k ≤ 10 ^ l := by
  calc (2 : ℚ) ^ k ≤ 2 ^ (3 * l) := zpow_le_zpow_right₀ one_le_two order
    _ = (2 ^ (3 : ℤ)) ^ l := zpow_mul 2 3 l
    _ ≤ 10 ^ l := zpow_le_zpow_left₀ positive (by norm_num) (by norm_num)

namespace Scaled

/-- The rational number that a decimal is. -/
def value (x : Scaled) : ℚ :=
  x.digits * 10 ^ x.exponent

/-- How many digits are written for it. -/
def length (x : Scaled) : ℕ :=
  (Nat.toDigits 10 x.digits).length

theorem length_pos (x : Scaled) : 0 < x.length :=
  Nat.length_toDigits_pos

/-- A number of so many digits is below that power of ten. -/
theorem digits_lt (x : Scaled) : x.digits < 10 ^ x.length :=
  (Nat.length_toDigits_le_iff (by decide) x.length_pos).1 le_rfl

theorem digits_ge {x : Scaled} (some : 0 < x.digits) : 10 ^ (x.length - 1) ≤ x.digits := by
  rcases Nat.eq_zero_or_pos (x.length - 1) with least | more
  · rwa [least, pow_zero]
  · by_contra less
    have shorter : x.length ≤ x.length - 1 :=
      (Nat.length_toDigits_le_iff (by decide) more).2 (not_le.1 less)
    omega

/-- Length and exponent bound the value from above. -/
theorem value_lt (x : Scaled) : x.value < 10 ^ (x.length + x.exponent) := by
  unfold value
  rw [ten_zpow_add, zpow_natCast]
  exact mul_lt_mul_of_pos_right (by exact_mod_cast x.digits_lt) (ten_zpow_pos _)

/-- They bound it from below if there is a digit that is not zero. -/
theorem value_ge {x : Scaled} (some : 0 < x.digits) :
    (10 : ℚ) ^ (x.length + x.exponent - 1) ≤ x.value := by
  have exponent : (x.length : ℤ) + x.exponent - 1 = (x.length - 1 : ℕ) + x.exponent := by
    have := x.length_pos
    omega
  unfold value
  rw [exponent, ten_zpow_add, zpow_natCast]
  exact mul_le_mul_of_nonneg_right (by exact_mod_cast digits_ge some) (ten_zpow_pos _).le

/-- The powers of ten that a decimal reaches are those below its point. -/
theorem power_le_value_iff {x : Scaled} (some : 0 < x.digits) (k : ℤ) :
    10 ^ k ≤ x.value ↔ k < x.length + x.exponent := by
  constructor
  · intro reached
    by_contra beyond
    exact absurd (x.value_lt.trans_le (ten_zpow_mono (not_lt.1 beyond))) (not_lt.2 reached)
  · intro order
    exact (ten_zpow_mono (by omega)).trans (value_ge some)

/-- Zeros behind the digits are made up for by the exponent. -/
theorem value_zeros (x : Scaled) (k : ℕ) :
    value ⟨x.digits * 10 ^ k, x.exponent - k⟩ = x.value := by
  have exponent : x.exponent = k + (x.exponent - k) := by omega
  unfold value
  conv_rhs => rw [exponent, ten_zpow_add, zpow_natCast]
  push_cast
  ring

/-- The quotient of natural numbers that a decimal is read as. -/
theorem quotient_eq (x : Scaled) :
    ((x.digits * Nat.pow 10 x.exponent.toNat : ℕ) : ℚ) / (Nat.pow 10 (-x.exponent).toNat : ℕ) =
      x.value := by
  have positive : (0 : ℚ) < 10 ^ (-x.exponent).toNat := pow_pos (by norm_num) _
  simp only [Nat.pow_eq]
  push_cast
  rw [pow_toNat (by norm_num), ← mul_assoc, mul_div_assoc, div_self positive.ne', mul_one]
  rfl

end Scaled

end HostBridge.Decimal
