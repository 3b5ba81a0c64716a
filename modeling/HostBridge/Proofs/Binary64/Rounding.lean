import HostBridge.Proofs.Binary64.Value
import HostBridge.Proofs.Decimal.Places
import Mathlib.Data.Nat.Log

/-!
# Rounding a quotient

`bitsOfQuotient` divides by the place value of the last bit that the significand has room for and
rounds the result to an integer (`Binary64.bitsOfQuotient_rounded`). The quotient is then within half
of that place value (`Binary64.Rounded.distance`). The next greater number is at least as far away as
a place (`Binary64.Rounded.above`), and so is the next smaller one, unless the quotient is on the other
side (`Binary64.Rounded.below`).
-/

namespace HostBridge.Binary64

/-! ## Integers -/

/-- What is below an integer is not rounded beyond it. -/
theorem le_of_near {n m : ℕ} {t : ℚ} (near : |n - t| ≤ 1 / 2) (below : t < m) : n ≤ m := by
  have next := (abs_le.1 near).2
  have strict : (n : ℚ) < (m + 1 : ℕ) := by
    push_cast
    linarith
  exact Nat.lt_succ_iff.1 (by exact_mod_cast strict)

theorem ge_of_near {n m : ℕ} {t : ℚ} (near : |n - t| ≤ 1 / 2) (above : m ≤ t) : m ≤ n := by
  have next := (abs_le.1 near).1
  have strict : (m : ℚ) < (n + 1 : ℕ) := by
    push_cast
    linarith
  exact Nat.lt_succ_iff.1 (by exact_mod_cast strict)

/-- The remainder is compared with half of the divisor: the result is nearest, and even if it is
half-way. -/
theorem roundQuotient_near {num den : ℕ} (positive : 0 < den) :
    |(roundQuotient num den : ℚ) - num / den| ≤ 1 / 2 ∧
      (|(roundQuotient num den : ℚ) - num / den| = 1 / 2 → roundQuotient num den % 2 = 0) := by
  have unit : (0 : ℚ) < den := by exact_mod_cast positive
  have quotient : (num : ℚ) / den = (num / den : ℕ) + (num % den : ℕ) / den := by
    have division : (den : ℚ) * (num / den : ℕ) + (num % den : ℕ) = num := by
      exact_mod_cast Nat.div_add_mod num den
    rw [← division, add_div, mul_div_cancel_left₀ _ unit.ne']
  unfold roundQuotient
  dsimp only
  rw [quotient]
  have small := Nat.mod_lt num positive
  generalize num % den = rest at small ⊢
  generalize num / den = below
  have rest_lt : (rest : ℚ) / den < 1 := by
    rw [div_lt_one unit]
    exact_mod_cast small
  have rest_nonneg : (0 : ℚ) ≤ rest / den := by positivity
  have down : |(below : ℚ) - (below + rest / den)| = rest / den := by
    rw [sub_add_cancel_left, abs_neg, abs_of_nonneg rest_nonneg]
  have up : |((below + 1 : ℕ) : ℚ) - (below + rest / den)| = 1 - rest / den := by
    push_cast
    rw [add_sub_add_left_eq_sub, abs_of_pos (sub_pos.2 rest_lt)]
  rcases Nat.lt_trichotomy (2 * rest) den with less | half | more
  · have bound : (rest : ℚ) / den < 1 / 2 := by
      rw [div_lt_div_iff₀ unit two_pos]
      exact_mod_cast (by omega : rest * 2 < 1 * den)
    rw [if_pos (.inl less), down]
    exact ⟨bound.le, fun tie => absurd tie bound.ne⟩
  · have bound : (rest : ℚ) / den = 1 / 2 := by
      rw [div_eq_div_iff unit.ne' two_ne_zero]
      exact_mod_cast (by omega : rest * 2 = 1 * den)
    by_cases even : below % 2 = 0
    · rw [if_pos (.inr ⟨half, even⟩), down]
      exact ⟨bound.le, fun _ => even⟩
    · rw [if_neg (by omega), up, bound]
      exact ⟨by norm_num, fun _ => by omega⟩
  · have bound : 1 / 2 < (rest : ℚ) / den := by
      rw [div_lt_div_iff₀ two_pos unit]
      exact_mod_cast (by omega : 1 * den < rest * 2)
    rw [if_neg (by omega), up]
    exact ⟨by linarith, fun tie => absurd tie (by linarith)⟩

/-! ## Powers of two -/

theorem scaled_quotient (num den : ℕ) (k : ℤ) :
    ((num * Nat.pow 2 (-k).toNat : ℕ) : ℚ) / (den * Nat.pow 2 k.toNat : ℕ) = num / den / 2 ^ k := by
  have positive : (0 : ℚ) < 2 ^ (-k).toNat := pow_pos two_pos _
  simp only [Nat.pow_eq]
  push_cast
  rw [Decimal.pow_toNat two_pos k, ← mul_assoc, mul_div_mul_right _ _ positive.ne', div_div]

section Quotient

variable {num den : ℕ}

/-- The logarithms of the two numbers leave open which of two neighbours the exponent is, and the
comparison decides that. -/
theorem floorLog_spec (some_num : 0 < num) (some_den : 0 < den) :
    (2 : ℚ) ^ floorLog num den ≤ num / den ∧ (num : ℚ) / den < 2 ^ (floorLog num den + 1) := by
  have num_ge : (2 : ℚ) ^ (num.log2 : ℤ) ≤ num := by
    exact_mod_cast Nat.log2_self_le some_num.ne'
  have num_lt : (num : ℚ) < 2 ^ (num.log2 + 1 : ℤ) := by exact_mod_cast Nat.lt_log2_self
  have den_ge : (2 : ℚ) ^ (den.log2 : ℤ) ≤ den := by
    exact_mod_cast Nat.log2_self_le some_den.ne'
  have den_lt : (den : ℚ) < 2 ^ (den.log2 + 1 : ℤ) := by exact_mod_cast Nat.lt_log2_self
  have unit : (0 : ℚ) < den := by exact_mod_cast some_den
  unfold floorLog
  rw [Int.ofNat_eq_natCast, Int.ofNat_eq_natCast]
  dsimp only
  generalize guess_eq : (num.log2 : ℤ) - den.log2 = guess
  have lower : (2 : ℚ) ^ (guess - 1) ≤ num / den := by
    rw [le_div_iff₀ unit]
    calc (2 : ℚ) ^ (guess - 1) * den ≤ 2 ^ (guess - 1) * 2 ^ (den.log2 + 1 : ℤ) :=
          mul_le_mul_of_nonneg_left den_lt.le (two_zpow_pos _).le
      _ = 2 ^ (num.log2 : ℤ) := by
        rw [← two_zpow_add]
        congr 1
        omega
      _ ≤ num := num_ge
  have upper : (num : ℚ) / den < 2 ^ (guess + 1) := by
    rw [div_lt_iff₀ unit]
    calc (num : ℚ) < 2 ^ (num.log2 + 1 : ℤ) := num_lt
      _ = 2 ^ (guess + 1) * 2 ^ (den.log2 : ℤ) := by
        rw [← two_zpow_add]
        congr 1
        omega
      _ ≤ 2 ^ (guess + 1) * den := mul_le_mul_of_nonneg_left den_ge (two_zpow_pos _).le
  have compared : num * Nat.pow 2 (-guess).toNat < den * Nat.pow 2 guess.toNat ↔
      (num : ℚ) / den < 2 ^ guess := by
    have place : 0 < den * Nat.pow 2 guess.toNat := Nat.mul_pos some_den (Nat.two_pow_pos _)
    rw [← div_lt_one (two_zpow_pos guess), ← scaled_quotient, div_lt_one (by exact_mod_cast place)]
    exact Nat.cast_lt.symm
  split
  · next less =>
    rw [sub_add_cancel]
    exact ⟨lower, compared.1 less⟩
  · next reached => exact ⟨not_lt.1 (mt compared.2 reached), upper⟩

/-- The bits of `n * 2 ^ s`, where `n` is `q` in units of `2 ^ s` rounded to an integer. They may be
beyond those of infinity. -/
structure Rounded (q : ℚ) (bits : ℕ) (s : ℤ) (n : ℕ) : Prop where
  bits_eq : bits = (s + 1074).toNat * fractionCount + n
  least : -1074 ≤ s
  most : n ≤ 2 * fractionCount
  near : |n - q / 2 ^ s| ≤ 1 / 2
  even : |n - q / 2 ^ s| = 1 / 2 → n % 2 = 0
  /-- The unit is the least one, or `q` leaves no room for a finer one. -/
  coarse : s = -1074 ∨ 2 ^ (52 + s) ≤ q

/-- The place value is that of the last bit for the exponent of the quotient, but not below the
least one. A result beyond the numbers is cut off at infinity. -/
theorem bitsOfQuotient_rounded (some_num : 0 < num) (some_den : 0 < den) :
    ∃ bits s n, bitsOfQuotient num den = min infinityBits bits ∧ Rounded (num / den) bits s n := by
  obtain ⟨reached, bound⟩ := floorLog_spec some_num some_den
  unfold bitsOfQuotient
  dsimp only
  generalize floorLog num den = log at reached bound
  generalize scale_eq : max (log - 52) (-1074) = s
  have place : 0 < den * Nat.pow 2 s.toNat := Nat.mul_pos some_den (Nat.two_pow_pos _)
  obtain ⟨near, even⟩ := @roundQuotient_near (num * Nat.pow 2 (-s).toNat) _ place
  rw [scaled_quotient] at near even
  generalize roundQuotient (num * Nat.pow 2 (-s).toNat) (den * Nat.pow 2 s.toNat) = n at near even
  generalize (num : ℚ) / den = q at reached bound near even
  refine ⟨_, s, n, rfl, rfl, by omega, ?_, near, even, ?_⟩
  · apply le_of_near near
    rw [div_lt_iff₀ (two_zpow_pos s)]
    calc q < 2 ^ (log + 1) := bound
      _ ≤ 2 ^ (53 + s) := zpow_le_zpow_right₀ one_le_two (by omega)
      _ = (2 * fractionCount : ℕ) * 2 ^ s := by
        rw [two_zpow_add]
        norm_num [fractionCount]
  · by_cases subnormal : s = -1074
    · exact .inl subnormal
    · have exponent : 52 + s = log := by omega
      rw [exponent]
      exact .inr reached

end Quotient

/-! ## Rounded quotients -/

section Rounded

variable {q : ℚ} {bits n : ℕ} {s : ℤ}

theorem Rounded.normal (rounded : Rounded q bits s n) : fractionCount ≤ n ∨ s = -1074 := by
  rcases rounded.coarse with least | large
  · exact .inr least
  · refine .inl (ge_of_near rounded.near ?_)
    rw [le_div_iff₀ (two_zpow_pos s)]
    rw [two_zpow_add] at large
    norm_num [fractionCount] at large ⊢
    exact large

/-- The bits that are put together stand for the rounded significand, even if it was carried to the
next power of two. -/
theorem Rounded.magnitude_eq (rounded : Rounded q bits s n) : magnitude bits = n * 2 ^ s := by
  have normal : fractionCount ≤ n ∨ (s + 1074).toNat = 0 := rounded.normal.imp_right (by omega)
  have exponent : ((s + 1074).toNat - 1074 : ℤ) = s := by
    have := rounded.least
    omega
  rw [rounded.bits_eq, magnitude_place normal rounded.most, exponent]

theorem Rounded.lastBit (rounded : Rounded q bits s n) : bits % 2 = n % 2 := by
  rw [rounded.bits_eq]
  unfold fractionCount
  omega

theorem magnitude_add_le (place : s + 1075 ≤ (max (bits / fractionCount) 1 : ℕ)) :
    magnitude bits + 2 ^ s ≤ magnitude (bits + 1) := by
  rw [magnitude_succ]
  exact add_le_add_right (zpow_le_zpow_right₀ one_le_two (by omega)) _

/-- The number is within half a place of the quotient, and a number half-way has even bits. -/
theorem Rounded.distance (rounded : Rounded q bits s n) :
    |magnitude bits - q| ≤ 2 ^ s / 2 ∧ (|magnitude bits - q| = 2 ^ s / 2 → bits % 2 = 0) := by
  have unit := two_zpow_pos s
  have scaled : |magnitude bits - q| = |n - q / 2 ^ s| * 2 ^ s := by
    rw [rounded.magnitude_eq, ← abs_of_pos unit, ← abs_mul, abs_of_pos unit, sub_mul,
      div_mul_cancel₀ _ unit.ne']
  constructor
  · calc |magnitude bits - q| = |n - q / 2 ^ s| * 2 ^ s := scaled
      _ ≤ 1 / 2 * 2 ^ s := mul_le_mul_of_nonneg_right rounded.near unit.le
      _ = 2 ^ s / 2 := by ring
  · intro tie
    rw [rounded.lastBit]
    apply rounded.even
    rw [scaled] at tie
    apply mul_right_cancel₀ unit.ne'
    linarith

theorem Rounded.place (rounded : Rounded q bits s n) :
    (bits : ℤ) = (s + 1074) * fractionCount + n := by
  have least := rounded.least
  have same := rounded.bits_eq
  zify at same
  rwa [Int.toNat_of_nonneg (by omega)] at same

/-- The next number is at least a whole place away. -/
theorem Rounded.above (rounded : Rounded q bits s n) :
    magnitude bits + 2 ^ s ≤ magnitude (bits + 1) := by
  apply magnitude_add_le
  have least := rounded.least
  have place := rounded.place
  have normal := rounded.normal
  unfold fractionCount at *
  omega

/-- The grid may be finer below the magnitude, but then `q` is not there. -/
theorem Rounded.below (rounded : Rounded q bits s n) (positive : 0 ≤ q) :
    magnitude (bits - 1) + 2 ^ s ≤ magnitude bits ∨ magnitude bits ≤ q := by
  have least := rounded.least
  have place := rounded.place
  by_cases coarse : fractionCount < n ∨ s = -1074 ∧ 0 < n
  · have some : n ≤ bits := rounded.bits_eq ▸ Nat.le_add_left _ _
    have previous : bits - 1 + 1 = bits := by omega
    left
    calc magnitude (bits - 1) + 2 ^ s ≤ magnitude (bits - 1 + 1) := by
          apply magnitude_add_le
          unfold fractionCount at *
          omega
      _ = magnitude bits := by rw [previous]
  · right
    rw [rounded.magnitude_eq]
    rcases rounded.coarse with lowest | large
    · have zero : n = 0 := by omega
      rw [zero, Nat.cast_zero, zero_mul]
      exact positive
    · have few : n ≤ fractionCount := by omega
      calc (n : ℚ) * 2 ^ s ≤ fractionCount * 2 ^ s :=
            mul_le_mul_of_nonneg_right (by exact_mod_cast few) (two_zpow_pos s).le
        _ = 2 ^ (52 + s) := by
          rw [two_zpow_add]
          norm_num [fractionCount]
        _ ≤ q := large

end Rounded

end HostBridge.Binary64
