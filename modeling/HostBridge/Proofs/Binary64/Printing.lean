import HostBridge.Binary64.Text
import HostBridge.Proofs.Binary64.Reading
import HostBridge.Proofs.Decimal.Shortest

/-!
# The decimal that is written for a number

The interval of a number in which the shortest decimal is searched consists of what is rounded to the
number (`Binary64.contains_interval_iff`). So the decimal found is read as the number again, no
decimal with fewer digits is, and none with as many digits that is nearer to the number
(`Binary64.shortest_isShortest`).
-/

namespace HostBridge.Binary64

open Decimal (Scaled Interval)

/-- A decimal that is read as the number, has the fewest digits of those, and of those with so few
digits is nearest to the number. -/
structure IsShortest (x : Binary64) (d : Scaled) : Prop where
  reads : ofDecimal x.isNegative d.digits d.exponent = x
  fewest : ∀ c : Scaled, ofDecimal x.isNegative c.digits c.exponent = x → d.length ≤ c.length
  nearest : ∀ c : Scaled, ofDecimal x.isNegative c.digits c.exponent = x → c.length = d.length →
    |signOf x.isNegative * d.value - x.value| ≤ |signOf x.isNegative * c.value - x.value|

/-- What a number is searched in for. -/
def interval (x : Binary64) : Interval :=
  .around x.significand x.scale x.isNarrowBelow

/-- The decimal that is written for a number. -/
def shortest (x : Binary64) : Scaled :=
  if x.isZero then ⟨0, 0⟩ else x.interval.shortest

theorem magnitudeText_eq (x : Binary64) : x.magnitudeText = x.shortest.render layout := by
  unfold magnitudeText shortest interval
  split <;> rfl

/-! ## The interval -/

section Interval

variable {x : Binary64}

theorem magnitude_eq (x : Binary64) :
    magnitude (x.bits.toNat % signPlace) = x.significand * 2 ^ x.scale := by
  have same := x.value_eq
  unfold value at same
  exact (mul_left_cancel₀ (signOf_ne_zero x.isNegative) same).symm

theorem bits_eq (x : Binary64) :
    x.bits.toNat % signPlace = x.exponentField * fractionCount + x.fraction := by
  rw [exponentField_eq, fraction_eq, mul_comm, Nat.div_add_mod]

theorem bits_pos (other : x.isZero = false) : 0 < x.bits.toNat % signPlace := by
  unfold isZero at other
  simp only [Bool.and_eq_false_iff, beq_eq_false_iff_ne] at other
  rw [bits_eq]
  unfold fractionCount
  omega

/-- The bits of a finite number are below those of infinity. -/
theorem IsFinite.bits_lt (finite : x.IsFinite) : x.bits.toNat % signPlace < infinityBits := by
  have field : x.exponentField < 2048 := Nat.mod_lt _ (by decide)
  have small : x.fraction < fractionCount := Nat.mod_lt _ (by decide)
  unfold IsFinite at finite
  rw [bits_eq]
  unfold infinityBits fractionCount at *
  omega

theorem significand_pos (other : x.isZero = false) : 0 < x.significand := by
  unfold isZero at other
  simp only [Bool.and_eq_false_iff, beq_eq_false_iff_ne] at other
  unfold significand fractionCount
  split <;> omega

/-- How far it is to the next number. -/
theorem magnitude_above (x : Binary64) :
    magnitude (x.bits.toNat % signPlace + 1) =
      magnitude (x.bits.toNat % signPlace) + 2 ^ x.scale := by
  have exponent : ((max (x.bits.toNat % signPlace / fractionCount) 1 : ℕ) - 1075 : ℤ) = x.scale := by
    rw [← exponentField_eq]
    unfold scale
    rw [Int.ofNat_eq_natCast]
    split <;> omega
  rw [magnitude_succ, exponent]

/-- Below a power of two the grid is finer. -/
theorem magnitude_below (other : x.isZero = false) :
    magnitude (x.bits.toNat % signPlace) = magnitude (x.bits.toNat % signPlace - 1) +
      2 ^ (if x.isNarrowBelow then x.scale - 1 else x.scale) := by
  have some := bits_pos other
  obtain ⟨bits, same⟩ := Nat.exists_eq_succ_of_ne_zero some.ne'
  have place := x.bits_eq
  have small : x.fraction < fractionCount := Nat.mod_lt _ (by decide)
  have exponent : ((max (bits / fractionCount) 1 : ℕ) - 1075 : ℤ) =
      if x.isNarrowBelow then x.scale - 1 else x.scale := by
    unfold isNarrowBelow scale
    rw [Int.ofNat_eq_natCast]
    simp only [Bool.and_eq_true, beq_iff_eq, decide_eq_true_eq]
    unfold fractionCount at *
    split <;> split <;> omega
  rw [same, magnitude_succ, exponent, Nat.succ_sub_one]

theorem interval_proper (other : x.isZero = false) : x.interval.Proper := by
  have some := significand_pos other
  unfold interval Interval.around
  refine ⟨?_, ?_, by dsimp only; omega⟩ <;> dsimp only <;> split <;> omega

theorem quarters (k : ℤ) : (2 : ℚ) ^ k = 4 * 2 ^ (k - 2) := by
  have exponent : k = 2 + (k - 2) := by omega
  conv_lhs => rw [exponent, two_zpow_add]
  norm_num

theorem middle_eq (x : Binary64) :
    x.interval.middle = 4 * x.significand * 2 ^ x.interval.scale := by
  unfold Interval.middle interval Interval.around
  push_cast
  rfl

theorem high_eq (x : Binary64) : (x.interval.high : ℚ) = 4 * x.significand + 2 := by
  unfold interval Interval.around
  push_cast
  rfl

theorem low_eq (other : x.isZero = false) :
    (x.interval.low : ℚ) = 4 * x.significand - if x.isNarrowBelow then 1 else 2 := by
  have some := significand_pos other
  unfold interval Interval.around
  dsimp only
  rw [Nat.cast_sub (by split <;> omega)]
  push_cast
  rfl

/-- The search is for decimals near the number itself. -/
theorem interval_middle (x : Binary64) :
    x.interval.middle = magnitude (x.bits.toNat % signPlace) := by
  have scale : x.interval.scale = x.scale - 2 := rfl
  rw [magnitude_eq, middle_eq, scale, quarters x.scale]
  ring

/-- The ends are half-way to the neighbours. -/
theorem interval_ends (other : x.isZero = false) :
    2 * (x.interval.low * 2 ^ x.interval.scale) =
        magnitude (x.bits.toNat % signPlace - 1) + magnitude (x.bits.toNat % signPlace) ∧
      2 * (x.interval.high * 2 ^ x.interval.scale) =
        magnitude (x.bits.toNat % signPlace) + magnitude (x.bits.toNat % signPlace + 1) := by
  have below := magnitude_below other
  have above := x.magnitude_above
  have middle := x.magnitude_eq
  rw [quarters x.scale] at middle above
  have scale : x.interval.scale = x.scale - 2 := rfl
  rw [scale, low_eq other, high_eq]
  constructor
  · cases narrow : x.isNarrowBelow with
    | true =>
      have eighth := two_zpow_succ (x.scale - 2)
      have exponent : x.scale - 2 + 1 = x.scale - 1 := by omega
      rw [exponent] at eighth
      rw [narrow, if_pos rfl, eighth] at below
      rw [if_pos rfl]
      linarith
    | false =>
      rw [narrow, if_neg Bool.false_ne_true, quarters x.scale] at below
      rw [if_neg Bool.false_ne_true]
      linarith
  · linarith

/-- The ends count if the bits are even, as half-way points are rounded to even bits. -/
theorem interval_closed (x : Binary64) :
    x.interval.closed = true ↔ x.bits.toNat % signPlace % 2 = 0 := by
  unfold interval Interval.around
  dsimp only
  rw [beq_iff_eq, significand_mod_two]

/-- The interval of a number consists of what is rounded to the number. -/
theorem contains_interval_iff (other : x.isZero = false) {q : ℚ} :
    x.interval.Contains q ↔ RoundsTo q (x.bits.toNat % signPlace) := by
  obtain ⟨low, high⟩ := interval_ends other
  have closed := x.interval_closed
  unfold Interval.Contains
  split
  · next even =>
    constructor
    · rintro ⟨left, right⟩
      exact ⟨by linarith, by linarith, fun _ => closed.1 even⟩
    · intro rounds
      constructor
      · linarith [rounds.low]
      · linarith [rounds.high]
  · next odd =>
    constructor
    · rintro ⟨left, right⟩
      refine ⟨by linarith, by linarith, ?_⟩
      rintro (tie | tie) <;> linarith
    · intro rounds
      constructor
      · refine lt_of_le_of_ne (by linarith [rounds.low]) fun tie => ?_
        exact odd (closed.2 (rounds.even (.inl (by linarith))))
      · refine lt_of_le_of_ne (by linarith [rounds.high]) fun tie => ?_
        exact odd (closed.2 (rounds.even (.inr (by linarith))))

/-! ## Powers of ten among the least numbers -/

theorem zpow_neg_le {a b p q j k : ℕ} (some_p : 0 < p) (some_q : 0 < q)
    (order : a * q ^ k ≤ b * p ^ j) : a * (p : ℚ) ^ (-j : ℤ) ≤ b * (q : ℚ) ^ (-k : ℤ) := by
  have p_pos : (0 : ℚ) < p ^ j := pow_pos (by exact_mod_cast some_p) j
  have q_pos : (0 : ℚ) < q ^ k := pow_pos (by exact_mod_cast some_q) k
  rw [zpow_neg, zpow_neg, zpow_natCast, zpow_natCast, ← div_eq_mul_inv, ← div_eq_mul_inv,
    div_le_div_iff₀ p_pos q_pos]
  exact_mod_cast order

/-- `1e-323` is a little more than eight quarters of the least unit. -/
theorem ten_zpow_least :
    809 * (2 : ℚ) ^ (-1076 : ℤ) ≤ 100 * 10 ^ (-323 : ℤ) ∧
      10 * (10 : ℚ) ^ (-323 : ℤ) ≤ 81 * 2 ^ (-1076 : ℤ) := by
  constructor
  · exact_mod_cast @zpow_neg_le 809 100 2 10 1076 323 (by decide) (by decide) (by decide +kernel)
  · exact_mod_cast @zpow_neg_le 10 81 10 2 323 1076 (by decide) (by decide) (by decide +kernel)

/-- Among the least numbers there is one power of ten that is rounded down. -/
theorem least_of_rounded_down {m : ℕ} {e : ℤ} (some : 0 < m) (few : m ≤ 9)
    (below : 4 * m * (2 : ℚ) ^ (-1076 : ℤ) < 10 ^ e)
    (high : (10 : ℚ) ^ e ≤ (4 * m + 2) * 2 ^ (-1076 : ℤ)) : e = -323 ∧ m = 2 := by
  have positive := two_zpow_pos (-1076)
  obtain ⟨lower, upper⟩ := ten_zpow_least
  generalize (2 : ℚ) ^ (-1076 : ℤ) = unit at *
  have least : unit ≤ m * unit :=
    le_mul_of_one_le_left positive.le (by exact_mod_cast some)
  have most : m * unit ≤ 9 * unit :=
    mul_le_mul_of_nonneg_right (by exact_mod_cast few) positive.le
  have exponent : e = -323 := by
    have above : -324 < e := by
      by_contra finer
      have tenth : (10 : ℚ) ^ e ≤ 10 ^ (-323 - 1 : ℤ) := Decimal.ten_zpow_mono (by omega)
      have whole := Decimal.ten_zpow_pred (-323)
      linarith
    have coarser : e < -322 := by
      by_contra coarser
      have ten : (10 : ℚ) ^ (-323 + 1 : ℤ) ≤ 10 ^ e := Decimal.ten_zpow_mono (by omega)
      rw [Decimal.ten_zpow_add, zpow_one] at ten
      linarith
    omega
  subst exponent
  have less : (m : ℚ) < 3 := by
    by_contra more
    have more : 3 * unit ≤ m * unit := mul_le_mul_of_nonneg_right (not_lt.1 more) positive.le
    linarith
  have more : (1 : ℚ) < m := by
    by_contra less
    have less : m * unit ≤ 1 * unit := mul_le_mul_of_nonneg_right (not_lt.1 less) positive.le
    linarith
  have less : m < 3 := by exact_mod_cast less
  have more : 1 < m := by exact_mod_cast more
  exact ⟨rfl, by omega⟩

/-- Only the least numbers have intervals that wide. -/
theorem exponentField_eq_zero (wide : 10 * x.interval.low ≤ 9 * x.interval.high) :
    x.significand ≤ 9 ∧ x.exponentField = 0 := by
  have few : x.significand ≤ 9 := by
    unfold interval Interval.around at wide
    dsimp only at wide
    split at wide <;> omega
  refine ⟨few, ?_⟩
  by_contra normal
  unfold significand fractionCount at few
  rw [if_neg normal] at few
  omega

theorem interval_leans (other : x.isZero = false) : x.interval.LeansToPowers := by
  intro e nine power below
  have low := nine.bounds.1
  have high := power.bounds.2
  have tenth := Decimal.ten_zpow_pred e
  have wide : 10 * x.interval.low ≤ 9 * x.interval.high := by
    have unit : (0 : ℚ) < 2 ^ x.interval.scale := two_zpow_pos _
    have wide : 10 * x.interval.low * (2 : ℚ) ^ x.interval.scale ≤
        9 * x.interval.high * 2 ^ x.interval.scale := by linarith
    exact_mod_cast le_of_mul_le_mul_right wide unit
  obtain ⟨few, field⟩ := exponentField_eq_zero wide
  have scale : x.interval.scale = -1076 := by
    unfold interval Interval.around Binary64.scale
    dsimp only
    rw [if_pos field]
    rfl
  rw [scale, x.high_eq] at high
  rw [x.middle_eq, scale] at below ⊢
  obtain ⟨rfl, two⟩ := least_of_rounded_down (significand_pos other) few below high
  rw [two, Nat.cast_two]
  linarith [ten_zpow_least.2, two_zpow_pos (-1076)]

end Interval

/-! ## The decimal that is written -/

section Shortest

variable {x : Binary64}

/-- A decimal is read as the number exactly if it is in the interval. -/
theorem ofDecimal_eq_self_iff (finite : x.IsFinite) (other : x.isZero = false) (d : Scaled) :
    ofDecimal x.isNegative d.digits d.exponent = x ↔ x.interval.Contains d.value := by
  rw [contains_interval_iff other, ← ofDecimal_eq_iff (bits_pos other)
    finite.bits_lt, ofParts_eq_self]

/-- Distances to the number are those of the magnitudes. -/
theorem distance_middle (x : Binary64) (q : ℚ) :
    |signOf x.isNegative * q - x.value| = |q - x.interval.middle| := by
  rw [value_eq, ← mul_sub, abs_signOf_mul, interval_middle]

theorem bits_of_isZero (zero : x.isZero = true) : x.bits.toNat % signPlace = 0 := by
  unfold isZero at zero
  simp only [Bool.and_eq_true, beq_iff_eq] at zero
  rw [bits_eq, zero.1, zero.2, Nat.zero_mul]

/-- Zero is written with one digit, and nothing has less. -/
theorem zero_isShortest (zero : x.isZero = true) : x.IsShortest ⟨0, 0⟩ where
  reads := by rw [ofDecimal_zero, ← bits_of_isZero zero, ofParts_eq_self]
  fewest c _ := c.length_pos
  nearest c _ _ := by
    have value : (⟨0, 0⟩ : Scaled).value = 0 := by simp [Scaled.value]
    rw [distance_middle, value, interval_middle, bits_of_isZero zero, magnitude_zero, sub_self,
      abs_zero]
    exact abs_nonneg _

/-- What the search finds is shortest, and zero, for which it is not made, is as well. -/
theorem shortest_isShortest (finite : x.IsFinite) : x.IsShortest x.shortest := by
  unfold shortest
  split
  · next zero => exact zero_isShortest zero
  · next other =>
    have other := eq_false_of_ne_true other
    have proper := interval_proper other
    have coarsest := Interval.shortest_isCoarsest proper
    have reads_iff := ofDecimal_eq_self_iff finite other
    constructor
    · exact (reads_iff _).2 coarsest.inside
    · intro c reads
      exact coarsest.length_le proper ((reads_iff c).1 reads)
    · intro c reads same
      rw [distance_middle, distance_middle]
      exact coarsest.nearest_of_length proper (interval_leans other) ((reads_iff c).1 reads) same

end Shortest

end HostBridge.Binary64
