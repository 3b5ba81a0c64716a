import HostBridge.Proofs.Binary64.Nearest

/-!
# Which decimals are read as a number

A decimal is read as a number other than zero and the infinities exactly where its value is rounded to
the number (`Binary64.ofDecimal_eq_iff`), so as the number that is nearest to it
(`Binary64.ofDecimal_isNearest`). Decimals that are too small or too great for the quotient to be
formed are not among them.
-/

namespace HostBridge.Binary64

theorem ofDecimal_zero (negative : Bool) (e : ℤ) : ofDecimal negative 0 e = ofParts negative 0 := by
  unfold ofDecimal
  exact if_pos (.inl rfl)

section Reading

variable {bits : ℕ}

/-- So small a decimal is no nearer to a number other than zero. -/
theorem not_roundsTo_of_small {q : ℚ} (some : 0 < bits) (small : q < 10 ^ (-401 : ℤ)) :
    ¬ RoundsTo q bits := by
  intro rounds
  have least : magnitude 1 ≤ magnitude bits := magnitude_strictMono.monotone some
  have unit : magnitude 1 = 2 ^ (-1074 : ℤ) := by
    rw [magnitude_succ 0, magnitude_zero, zero_add]
    norm_num [fractionCount]
  have power : (10 : ℚ) ^ (-401 : ℤ) ≤ 2 ^ (-1075 : ℤ) := by
    rw [zpow_neg, zpow_neg]
    apply inv_anti₀ (two_zpow_pos _)
    exact Decimal.two_zpow_le_ten_zpow (by norm_num) (by norm_num)
  apply absurd rounds.low
  rw [not_le]
  calc 2 * q < 2 * 2 ^ (-1075 : ℤ) := mul_lt_mul_of_pos_left (small.trans_le power) two_pos
    _ = 2 ^ (-1074 : ℤ) := by
      rw [← two_zpow_succ]
      norm_num
    _ ≤ magnitude bits := unit ▸ least
    _ ≤ magnitude (bits - 1) + magnitude bits := le_add_of_nonneg_left (magnitude_nonneg _)

/-- So great a decimal is beyond the numbers. -/
theorem not_roundsTo_of_large {q : ℚ} (finite : bits < infinityBits)
    (large : (10 : ℚ) ^ (400 : ℤ) ≤ q) : ¬ RoundsTo q bits := by
  intro rounds
  have below : magnitude bits ≤ magnitude infinityBits := magnitude_strictMono.monotone finite.le
  have next : magnitude (bits + 1) ≤ magnitude infinityBits := magnitude_strictMono.monotone finite
  have power : (2 : ℚ) ^ (1024 : ℤ) < 10 ^ (400 : ℤ) :=
    calc (2 : ℚ) ^ (1024 : ℤ) < 2 ^ (1025 : ℤ) := zpow_lt_zpow_right₀ one_lt_two (by norm_num)
      _ ≤ 10 ^ (400 : ℤ) := Decimal.two_zpow_le_ten_zpow (by norm_num) (by norm_num)
  rw [magnitude_infinityBits] at below next
  apply absurd rounds.high
  rw [not_le]
  calc magnitude bits + magnitude (bits + 1) ≤ 2 ^ (1024 : ℤ) + 2 ^ (1024 : ℤ) :=
        add_le_add below next
    _ = 2 * 2 ^ (1024 : ℤ) := (two_mul _).symm
    _ < 2 * q := mul_lt_mul_of_pos_left (power.trans_le large) two_pos

/-- The decimals that are read as a number other than zero and the infinities. -/
theorem ofDecimal_eq_iff {negative : Bool} (some : 0 < bits) (finite : bits < infinityBits)
    (x : Decimal.Scaled) :
    ofDecimal negative x.digits x.exponent = ofParts negative bits ↔ RoundsTo x.value bits := by
  have bound : bits < signPlace := Nat.lt_trans finite (by decide)
  have places : ((Nat.toDigits 10 x.digits).length : ℤ) = x.length := rfl
  unfold ofDecimal
  dsimp only
  rw [places]
  split
  · next tiny =>
    rw [ofParts_inj bound (by decide)]
    refine iff_of_false some.ne (not_roundsTo_of_small some ?_)
    by_cases zero : x.digits = 0
    · unfold Decimal.Scaled.value
      rw [zero, Nat.cast_zero, zero_mul]
      exact Decimal.ten_zpow_pos _
    · have small := tiny.resolve_left zero
      exact x.value_lt.trans_le (Decimal.ten_zpow_mono (by omega))
  · next plain =>
    have some_digits : 0 < x.digits := by omega
    split
    · next huge =>
      unfold infinity
      rw [ofParts_inj bound (by decide)]
      refine iff_of_false finite.ne' (not_roundsTo_of_large finite ?_)
      exact (Decimal.ten_zpow_mono (by omega)).trans (Decimal.Scaled.value_ge some_digits)
    · have some_num : 0 < x.digits * Nat.pow 10 x.exponent.toNat :=
        Nat.mul_pos some_digits (Nat.pow_pos (by decide))
      have some_den : 0 < Nat.pow 10 (-x.exponent).toNat := Nat.pow_pos (by decide)
      rw [ofParts_inj bound (bitsOfQuotient_lt _ _),
        bitsOfQuotient_eq_iff some_num some_den finite, x.quotient_eq]

/-- A decimal is read as the number that is nearest to it. -/
theorem ofDecimal_isNearest {negative : Bool} (some : 0 < bits) (finite : bits < infinityBits)
    {x : Decimal.Scaled}
    (reads : ofDecimal negative x.digits x.exponent = ofParts negative bits) :
    (ofParts negative bits).IsNearest (signOf negative * x.value) :=
  ((ofDecimal_eq_iff some finite x).1 reads).isNearest finite negative

end Reading

end HostBridge.Binary64
