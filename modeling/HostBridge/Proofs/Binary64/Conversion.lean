import HostBridge.Proofs.Binary64.Nearest

/-!
# Numbers and 64-bit integers, exactly

One conversion rounds (`Binary64.ofInt64_isNearest`) and the other saturates
(`Binary64.toInt64_of_finite`), so that coming back to the same integer does not mean by itself that
nothing was lost on the way. It does mean that below the limit: from `2 ^ 52` on all numbers are
integers, and the smaller integers are numbers. So `ofInt?` answers exactly for the integers that are
numbers (`Binary64.ofInt?_of_value`, `Binary64.ofInt?_eq_none`), which are those with 53 bits
(`Binary64.isNumber_iff`).
-/

namespace HostBridge.Binary64

/-- The integer part, whichever side of zero. -/
def towardZero (q : ℚ) : ℤ :=
  if q < 0 then ⌈q⌉ else ⌊q⌋

theorem towardZero_intCast (n : ℤ) : towardZero n = n := by
  unfold towardZero
  rw [Int.ceil_intCast, Int.floor_intCast, ite_self]

/-- Truncation does not leave a range of integers around zero. -/
theorem towardZero_bounds {q : ℚ} {a b : ℤ} (nonpos : a ≤ 0) (positive : 0 < b) (least : a ≤ q)
    (most : q < b) : a ≤ towardZero q ∧ towardZero q < b := by
  unfold towardZero
  split
  · next below =>
    have rounded : a ≤ ⌈q⌉ := by exact_mod_cast least.trans (Int.le_ceil q)
    have ceil : ⌈q⌉ ≤ 0 := Int.ceil_le.2 (by exact_mod_cast below.le)
    exact ⟨rounded, ceil.trans_lt positive⟩
  · next above =>
    have floor : 0 ≤ ⌊q⌋ := Int.floor_nonneg.2 (not_lt.1 above)
    have rounded : ⌊q⌋ < b := by exact_mod_cast (Int.floor_le q).trans_lt most
    exact ⟨nonpos.trans floor, rounded⟩

/-! ## From integers to numbers -/

/-- An integer becomes the nearest number, and one with an even significand half-way between two. -/
theorem ofInt64_isNearest (n : Int64) : (ofInt64 n).IsNearest n.toInt := by
  unfold ofInt64
  by_cases zero : n = 0
  · subst zero
    have value : Binary64.zero.value = 0 := by
      rw [value_eq]
      exact mul_eq_zero_of_right _ magnitude_zero
    rw [if_pos rfl, Int64.toInt_zero, Int.cast_zero]
    constructor
    · decide
    · intro y _
      rw [value, sub_zero, abs_zero]
      exact abs_nonneg _
    · intro y _ _ _
      decide
  · have other : n.toInt ≠ 0 := fun same => zero (Int64.toInt_inj.1 same)
    have least := n.le_toInt
    have most := n.toInt_lt
    have small : ((n.toInt.natAbs : ℕ) : ℚ) / (1 : ℕ) < 2 ^ 1023 := by
      have bound : n.toInt.natAbs < 2 ^ 64 := by omega
      have bound : ((n.toInt.natAbs : ℕ) : ℚ) < 2 ^ 64 := by exact_mod_cast bound
      rw [Nat.cast_one, div_one]
      exact bound.trans_le (pow_le_pow_right₀ one_le_two (by omega))
    have nearest := isNearest_bitsOfQuotient (Int.natAbs_pos.2 other) Nat.one_pos small
      (decide (n.toInt < 0))
    have sign : signOf (decide (n.toInt < 0)) * ((n.toInt.natAbs : ℕ) / (1 : ℕ)) = n.toInt := by
      rw [Nat.cast_one, div_one, Nat.cast_natAbs]
      unfold signOf
      by_cases below : n.toInt < 0
      · rw [if_pos (decide_eq_true below), abs_of_neg below, Int.cast_neg]
        ring
      · rw [if_neg (by simpa using below), abs_of_nonneg (not_lt.1 below), one_mul]
    rw [if_neg zero, ← sign]
    exact nearest

/-! ## From numbers to integers -/

/-- What the bits are shifted to is the value without its fraction. -/
theorem truncated_eq (x : Binary64) : x.truncated = towardZero x.value := by
  have positive : (0 : ℚ) ≤ x.significand * 2 ^ x.scale :=
    mul_nonneg (Nat.cast_nonneg _) (two_zpow_pos _).le
  have size : ((x.significand * Nat.pow 2 x.scale.toNat / Nat.pow 2 (-x.scale).toNat : ℕ) : ℤ) =
      ⌊x.significand * (2 : ℚ) ^ x.scale⌋ := by
    have scaled := scaled_quotient x.significand 1 (-x.scale)
    rw [neg_neg, Nat.cast_one, div_one, zpow_neg, div_inv_eq_mul, Nat.one_mul] at scaled
    rw [← Int.natCast_floor_eq_floor positive, ← scaled, Rat.natFloor_natCast_div_natCast]
  unfold truncated towardZero value
  dsimp only
  rw [size]
  generalize (x.significand : ℚ) * 2 ^ x.scale = q at positive
  unfold signOf
  cases x.isNegative with
  | true =>
    rw [if_pos rfl, if_pos rfl, neg_one_mul, Int.ceil_neg]
    by_cases zero : q = 0
    · subst zero
      simp
    · rw [if_pos (neg_neg_of_pos (lt_of_le_of_ne' positive zero))]
  | false =>
    rw [if_neg Bool.false_ne_true, if_neg Bool.false_ne_true, one_mul, if_neg (not_lt.2 positive)]

theorem toInt_ofIntClamp (i : ℤ) :
    (Int64.ofIntClamp i).toInt = max (-2 ^ 63) (min (2 ^ 63 - 1) i) := by
  unfold Int64.ofIntClamp
  rw [← Int64.toInt_minValue, ← Int64.toInt_maxValue]
  have order : Int64.minValue.toInt ≤ Int64.maxValue.toInt := by decide
  split
  · next least =>
    split
    · next most => rw [Int64.toInt_ofIntLE, min_eq_right most, max_eq_right least]
    · next beyond => rw [min_eq_left (le_of_not_ge beyond), max_eq_right order]
  · next beyond =>
    rw [min_eq_right ((le_of_not_ge beyond).trans order), max_eq_left (le_of_not_ge beyond)]

/-- How a number becomes an integer: without its fraction, and no farther than the range goes. -/
structure Saturates (x : Binary64) (i : Int64) : Prop where
  finite : x.IsFinite → i.toInt = max (-2 ^ 63) (min (2 ^ 63 - 1) (towardZero x.value))
  infinite : x.isInfinite → i = if x.isNegative then Int64.minValue else Int64.maxValue
  nan : x.isNaN → i = 0

/-- A finite number becomes its truncation, held within the range of integers. -/
theorem toInt64_of_finite {x : Binary64} (finite : x.IsFinite) :
    x.toInt64.toInt = max (-2 ^ 63) (min (2 ^ 63 - 1) (towardZero x.value)) := by
  unfold toInt64
  rw [finite.isNaN, if_neg Bool.false_ne_true, toInt_ofIntClamp, truncated_eq]

/-- The bits of an infinity are those of `2 ^ 1024`, which is beyond the integers. -/
theorem truncated_of_infinite {x : Binary64} (field : x.exponentField = 2047)
    (fraction : x.fraction = 0) :
    ∃ size : ℕ, x.truncated = (if x.isNegative then -(size : ℤ) else size) ∧ 2 ^ 63 ≤ size := by
  refine ⟨_, rfl, ?_⟩
  have significand : x.significand = 2 ^ 52 := by
    unfold significand
    rw [field, fraction]
    decide
  have scale : 11 ≤ x.scale := by
    unfold scale
    rw [field]
    decide
  have whole : (-x.scale).toNat = 0 := by omega
  rw [significand, whole, Nat.pow_eq, Nat.pow_eq, pow_zero, Nat.div_one, ← Nat.pow_add]
  exact Nat.pow_le_pow_right Nat.two_pos (by omega)

/-- An infinite number becomes the last integer on its side. -/
theorem toInt64_of_infinite {x : Binary64} (infinite : x.isInfinite = true) :
    x.toInt64 = if x.isNegative then Int64.minValue else Int64.maxValue := by
  unfold isInfinite at infinite
  obtain ⟨field, fraction⟩ := Bool.and_eq_true_iff.1 infinite
  have field := eq_of_beq field
  have fraction := eq_of_beq fraction
  have number : x.isNaN = false := by
    unfold isNaN
    rw [fraction, bne_self_eq_false, Bool.and_false]
  obtain ⟨size, truncated, large⟩ := truncated_of_infinite field fraction
  unfold toInt64
  rw [number, if_neg Bool.false_ne_true, truncated, ← Int64.toInt_inj, toInt_ofIntClamp]
  cases x.isNegative with
  | true =>
    rw [if_pos rfl, if_pos rfl, Int64.toInt_minValue]
    omega
  | false =>
    rw [if_neg Bool.false_ne_true, if_neg Bool.false_ne_true, Int64.toInt_maxValue]
    omega

theorem toInt64_saturates (x : Binary64) : x.Saturates x.toInt64 where
  finite := toInt64_of_finite
  infinite := toInt64_of_infinite
  nan nan := if_pos nan

/-! ## Integers that are numbers -/

/-- An integer that is written with 53 bits and zeros behind them. As `2 ^ 53` needs one bit only, it
may be `m` as well. -/
def HasFewBits (v : ℤ) : Prop :=
  ∃ (m : ℤ) (k : ℕ), |m| ≤ 2 ^ 53 ∧ v = m * 2 ^ k

theorem exists_value_of_hasFewBits {v : Int64} (few : HasFewBits v.toInt) :
    ∃ y : Binary64, y.IsFinite ∧ y.value = v.toInt := by
  obtain ⟨m, k, bound, same⟩ := few
  have size : m.natAbs ≤ 2 * fractionCount := by
    rw [Int.abs_eq_natAbs] at bound
    unfold fractionCount
    omega
  by_cases zero : m = 0
  · subst zero
    obtain ⟨y, finite, value⟩ := exists_value size (Nat.zero_le 63)
    refine ⟨y, finite, ?_⟩
    rw [value, same]
    simp
  · have least := v.le_toInt
    have most := v.toInt_lt
    have power : (2 : ℕ) ^ k ≤ 2 ^ 63 := by
      calc 2 ^ k ≤ m.natAbs * 2 ^ k := Nat.le_mul_of_pos_left _ (Int.natAbs_pos.2 zero)
        _ = v.toInt.natAbs := by rw [same, Int.natAbs_mul, Int.natAbs_pow]; rfl
        _ ≤ 2 ^ 63 := by omega
    obtain ⟨y, finite, value⟩ := exists_value size ((Nat.pow_le_pow_iff_right Nat.one_lt_two).1 power)
    refine ⟨y, finite, ?_⟩
    rw [value, same]
    push_cast
    rfl

/-- The value of a number has no more bits than a significand. -/
theorem hasFewBits_of_value {v : ℤ} {y : Binary64} (value : y.value = v) : HasFewBits v := by
  have bound : y.significand ≤ 2 ^ 53 := y.significand_lt.le
  rcases Int.le_total 0 y.scale with coarse | fine
  · obtain ⟨k, scale⟩ := Int.eq_ofNat_of_zero_le coarse
    refine ⟨(if y.isNegative then -1 else 1) * y.significand, k, ?_, ?_⟩
    · cases y.isNegative <;> simpa using by exact_mod_cast bound
    · unfold Binary64.value signOf at value
      rw [scale, zpow_natCast, ← mul_assoc] at value
      exact_mod_cast value.symm
  · refine ⟨v, 0, ?_, by rw [pow_zero, mul_one]⟩
    have size : |(v : ℚ)| ≤ 2 ^ 53 := by
      rw [← value, abs_value]
      calc y.significand * (2 : ℚ) ^ y.scale ≤ y.significand * 1 :=
            mul_le_mul_of_nonneg_left (zpow_le_one_of_nonpos₀ one_le_two fine) (Nat.cast_nonneg _)
        _ ≤ 2 ^ 53 := by
          rw [mul_one]
          exact_mod_cast bound
    exact_mod_cast size

/-- What is a number itself is rounded to its own value. -/
theorem IsNearest.value_eq {x y : Binary64} {q : ℚ} (nearest : x.IsNearest q) (finite : y.IsFinite)
    (same : y.value = q) : x.value = q := by
  have distance := nearest.nearest y finite
  rw [same, sub_self, abs_zero] at distance
  exact sub_eq_zero.1 (abs_nonpos_iff.1 distance)

/-- The integers that are numbers, and they are the numbers they are rounded to. -/
theorem isNumber_iff (v : Int64) : HasFewBits v.toInt ↔ (ofInt64 v).value = v.toInt := by
  constructor
  · intro few
    obtain ⟨y, finite, same⟩ := exists_value_of_hasFewBits few
    exact (ofInt64_isNearest v).value_eq finite same
  · exact hasFewBits_of_value

theorem integerLimit_value : integerLimit.value = 2 ^ 63 := by
  have sign : integerLimit.isNegative = false := by decide
  have significand : integerLimit.significand = 2 ^ 52 := by decide
  have scale : integerLimit.scale = 11 := by decide
  unfold value
  rw [sign, significand, scale]
  norm_num [signOf]

theorem isLess_integerLimit {x : Binary64} (finite : x.IsFinite) :
    x.isLess integerLimit = true ↔ x.value < 2 ^ 63 := by
  rw [isLess_iff finite (by decide), integerLimit_value]

theorem ofInt?_of_value {v : Int64} (same : (ofInt64 v).value = v.toInt) :
    ofInt? v = some (ofInt64 v) := by
  have finite := (ofInt64_isNearest v).finite
  have least := v.le_toInt
  have most := v.toInt_lt
  have less : (ofInt64 v).isLess integerLimit = true := by
    rw [isLess_integerLimit finite, same]
    exact_mod_cast most
  have back : (ofInt64 v).toInt64 = v := by
    apply Int64.toInt_inj.1
    rw [toInt64_of_finite finite, same, towardZero_intCast]
    omega
  unfold ofInt?
  dsimp only
  rw [less, back, beq_self_eq_true]
  rfl

/-- The least integer is a number, so none that is rounded ends up below it. -/
theorem ofInt64_value_ge (v : Int64) : -2 ^ 63 ≤ (ofInt64 v).value := by
  obtain ⟨y, finite, value⟩ := exists_value (m := -1) (k := 63) (by decide) le_rfl
  have nearest := (ofInt64_isNearest v).nearest y finite
  have least : (-2 ^ 63 : ℚ) ≤ v.toInt := by exact_mod_cast v.le_toInt
  have limit : y.value = -2 ^ 63 := by
    rw [value]
    norm_num
  by_contra below
  rw [limit, abs_of_nonpos (by linarith), abs_of_nonpos (by linarith)] at nearest
  linarith

/-- What comes back from below the limit was not rounded. Numbers from `2^52` on are integers, and
smaller integers are numbers, so they are rounded to themselves. -/
theorem value_of_toInt64 {v : Int64} (less : (ofInt64 v).value < 2 ^ 63)
    (back : (ofInt64 v).toInt64 = v) : (ofInt64 v).value = v.toInt := by
  have nearest := ofInt64_isNearest v
  have above := ofInt64_value_ge v
  have truncated : v.toInt = towardZero (ofInt64 v).value := by
    have inside := towardZero_bounds (a := -2 ^ 63) (b := 2 ^ 63) (by decide) (by decide)
      (by exact_mod_cast above) (by exact_mod_cast less)
    have saturated := toInt64_of_finite nearest.finite
    rw [back] at saturated
    omega
  by_cases large : (2 : ℚ) ^ (52 + 0 : ℤ) ≤ |(ofInt64 v).value|
  · obtain ⟨j, integer⟩ := on_grid (.inr large)
    rw [zpow_zero, mul_one] at integer
    rw [truncated, integer, towardZero_intCast]
  · have small := abs_lt.1 (not_le.1 large)
    have inside := towardZero_bounds (a := -2 ^ 52) (b := 2 ^ 52) (by decide) (by decide)
      (by exact_mod_cast small.1.le) (by exact_mod_cast small.2)
    apply (isNumber_iff v).1
    refine ⟨v.toInt, 0, ?_, by rw [pow_zero, mul_one]⟩
    rw [abs_le]
    omega

/-- A rounded integer is not accepted: it either comes back as another one or is beyond the range.
-/
theorem ofInt?_eq_none {v : Int64} (other : (ofInt64 v).value ≠ v.toInt) : ofInt? v = none := by
  unfold ofInt?
  dsimp only
  rw [if_neg]
  intro accepted
  obtain ⟨less, back⟩ := Bool.and_eq_true_iff.1 accepted
  rw [isLess_integerLimit (ofInt64_isNearest v).finite] at less
  exact other (value_of_toInt64 less (eq_of_beq back))

end HostBridge.Binary64
