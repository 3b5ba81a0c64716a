import HostBridge.Binary64.Integer
import Mathlib.Algebra.Order.Ring.Abs
import Mathlib.Algebra.Order.SuccPred
import Mathlib.Data.Int.ConditionallyCompleteOrder
import Mathlib.Data.Int.SuccPred
import Mathlib.Data.Rat.Floor
import Mathlib.Tactic.FieldSimp
import Mathlib.Tactic.Linarith
import Mathlib.Tactic.NormNum
import Mathlib.Tactic.Ring

/-!
# The values of numbers

A finite number is a rational one, `Binary64.value`. Counting up its bits walks through the
magnitudes in their order (`Binary64.magnitude_succ`), so comparing numbers is comparing their values
(`Binary64.isLess_iff`), and the bits of a number can be given by its value
(`Binary64.value_ofParts`). From a power of two on, all values lie on a grid (`Binary64.on_grid`).
-/

namespace HostBridge.Binary64

/-- Neither a NaN nor an infinity. -/
def IsFinite (x : Binary64) : Prop :=
  x.exponentField ≠ 2047

instance : DecidablePred IsFinite :=
  fun x => inferInstanceAs (Decidable (x.exponentField ≠ 2047))

def signOf (negative : Bool) : ℚ :=
  if negative then -1 else 1

/-- The rational number that a finite number is. -/
def value (x : Binary64) : ℚ :=
  signOf x.isNegative * (x.significand * 2 ^ x.scale)

/-- The value of a number without sign that has these bits. -/
def magnitude (bits : ℕ) : ℚ :=
  ((if bits / fractionCount = 0 then 0 else fractionCount) + bits % fractionCount : ℕ) *
    2 ^ ((max (bits / fractionCount) 1 : ℕ) - 1075 : ℤ)

theorem two_zpow_succ (k : ℤ) : (2 : ℚ) ^ (k + 1) = 2 * 2 ^ k := by
  rw [zpow_add₀ two_ne_zero, zpow_one, mul_comm]

theorem two_zpow_add (k l : ℤ) : (2 : ℚ) ^ (k + l) = 2 ^ k * 2 ^ l :=
  zpow_add₀ two_ne_zero k l

theorem two_zpow_pos (k : ℤ) : (0 : ℚ) < 2 ^ k :=
  zpow_pos two_pos k

theorem signOf_mul_self (negative : Bool) : signOf negative * signOf negative = 1 := by
  cases negative <;> norm_num [signOf]

theorem signOf_ne_zero (negative : Bool) : signOf negative ≠ 0 := by
  cases negative <;> norm_num [signOf]

theorem abs_signOf_mul (negative : Bool) (q : ℚ) : |signOf negative * q| = |q| := by
  cases negative <;> simp [signOf]

/-! ## Bits -/

theorem exponentField_eq (x : Binary64) :
    x.exponentField = x.bits.toNat % signPlace / fractionCount := by
  have bound := x.bits.toNat_lt
  unfold exponentField signPlace fractionCount
  omega

theorem fraction_eq (x : Binary64) : x.fraction = x.bits.toNat % signPlace % fractionCount := by
  unfold fraction signPlace fractionCount
  omega

/-- The value of a number depends on its sign and on the bits behind it. -/
theorem value_eq (x : Binary64) :
    x.value = signOf x.isNegative * magnitude (x.bits.toNat % signPlace) := by
  unfold value magnitude significand scale
  rw [← exponentField_eq, ← fraction_eq]
  by_cases field : x.exponentField = 0
  · rw [if_pos field, if_pos field, if_pos field, field]
    norm_num
  · have clamped : max x.exponentField 1 = x.exponentField := max_eq_left (Nat.pos_of_ne_zero field)
    rw [if_neg field, if_neg field, if_neg field, clamped]
    rfl

/-! ## Magnitudes in their order -/

theorem magnitude_zero : magnitude 0 = 0 := by
  unfold magnitude
  norm_num

/-- One up in the bits is one up on the grid of the exponent, also where the exponent changes. -/
theorem magnitude_succ (bits : ℕ) : magnitude (bits + 1) =
    magnitude bits + 2 ^ ((max (bits / fractionCount) 1 : ℕ) - 1075 : ℤ) := by
  unfold magnitude
  generalize field_eq : bits / fractionCount = field
  generalize fraction_eq : bits % fractionCount = fraction
  by_cases last : fraction + 1 = fractionCount
  · have next : (bits + 1) / fractionCount = field + 1 := by
      unfold fractionCount at *
      omega
    have restart : (bits + 1) % fractionCount = 0 := by
      unfold fractionCount at *
      omega
    have count : (fractionCount : ℚ) = fraction + 1 := by exact_mod_cast last.symm
    rw [next, restart, if_neg field.succ_ne_zero, max_eq_left (Nat.le_add_left 1 field)]
    by_cases lowest : field = 0
    · subst lowest
      rw [if_pos rfl, max_eq_right (Nat.zero_le 1), Nat.zero_add 1]
      generalize (2 : ℚ) ^ ((1 : ℕ) - 1075 : ℤ) = unit
      push_cast
      rw [count]
      ring
    · rw [if_neg lowest, max_eq_left (Nat.pos_of_ne_zero lowest)]
      have exponent : ((field + 1 : ℕ) - 1075 : ℤ) = (field - 1075) + 1 := by
        push_cast
        ring
      rw [exponent, two_zpow_succ]
      push_cast
      rw [count]
      ring
  · have same : (bits + 1) / fractionCount = field := by
      unfold fractionCount at *
      omega
    have next : (bits + 1) % fractionCount = fraction + 1 := by
      unfold fractionCount at *
      omega
    rw [same, next]
    push_cast
    ring

/-- Magnitudes are in the order of their bits. -/
theorem magnitude_strictMono : StrictMono magnitude := by
  apply strictMono_nat_of_lt_succ
  intro bits
  rw [magnitude_succ]
  exact lt_add_of_pos_right _ (two_zpow_pos _)

theorem magnitude_nonneg (bits : ℕ) : 0 ≤ magnitude bits := by
  rw [← magnitude_zero]
  exact magnitude_strictMono.monotone (Nat.zero_le bits)

/-- The value by the place in the order. -/
def valueAt (rank : ℤ) : ℚ :=
  if rank < 0 then -magnitude (-rank).toNat else magnitude rank.toNat

theorem valueAt_neg (bits : ℕ) : valueAt (-bits) = -magnitude bits := by
  unfold valueAt
  by_cases zero : bits = 0
  · subst zero
    simp [magnitude_zero]
  · rw [if_pos (by omega)]
    congr
    omega

theorem valueAt_natCast (bits : ℕ) : valueAt bits = magnitude bits := by
  unfold valueAt
  rw [if_neg (by omega), Int.toNat_natCast]

/-- Values are in the order of their ranks. -/
theorem valueAt_strictMono : StrictMono valueAt := by
  apply strictMono_int_of_lt_succ
  intro rank
  rcases Int.lt_or_le rank 0 with below | above
  · obtain ⟨bits, rfl⟩ : ∃ bits : ℕ, rank = -((bits + 1 : ℕ) : ℤ) := ⟨(-rank - 1).toNat, by omega⟩
    have next : -((bits + 1 : ℕ) : ℤ) + 1 = -(bits : ℤ) := by omega
    rw [next, valueAt_neg, valueAt_neg]
    exact neg_lt_neg (magnitude_strictMono bits.lt_succ_self)
  · unfold valueAt
    rw [if_neg (by omega), if_neg (by omega)]
    exact magnitude_strictMono (by omega)

/-- The value of a number depends on its rank alone, in which both zeros are one. -/
theorem value_eq_valueAt (x : Binary64) : x.value = valueAt x.rank := by
  rw [value_eq]
  unfold rank
  generalize x.bits.toNat % signPlace = bits
  cases x.isNegative with
  | true =>
    rw [if_pos rfl, valueAt_neg, signOf, if_pos rfl, neg_one_mul]
  | false =>
    rw [if_neg Bool.false_ne_true, valueAt_natCast, signOf, if_neg Bool.false_ne_true, one_mul]

theorem IsFinite.isNaN {x : Binary64} (finite : x.IsFinite) : x.isNaN = false := by
  unfold Binary64.isNaN
  rw [beq_false_of_ne finite, Bool.false_and]

theorem IsFinite.isInfinite {x : Binary64} (finite : x.IsFinite) : x.isInfinite = false := by
  unfold Binary64.isInfinite
  rw [beq_false_of_ne finite, Bool.false_and]

/-- The greatest exponent is that of infinities and NaNs. -/
theorem isFinite_iff {x : Binary64} : x.IsFinite ↔ x.isNaN = false ∧ x.isInfinite = false := by
  refine ⟨fun finite => ⟨finite.isNaN, finite.isInfinite⟩, fun ⟨number, bounded⟩ field => ?_⟩
  unfold isNaN at number
  unfold isInfinite at bounded
  rw [field, beq_self_eq_true, Bool.true_and] at number bounded
  simp_all

/-- Numbers are compared by their values. -/
theorem isLess_iff {x y : Binary64} (finite : x.IsFinite) (finite' : y.IsFinite) :
    x.isLess y = true ↔ x.value < y.value := by
  unfold isLess
  rw [finite.isNaN, finite'.isNaN, value_eq_valueAt, value_eq_valueAt, valueAt_strictMono.lt_iff_lt]
  simp

/-! ## Numbers by their values -/

section Parts

variable {negative : Bool} {bits : ℕ}

theorem toNat_ofParts (bound : bits < signPlace) :
    (ofParts negative bits).bits.toNat = (if negative then signPlace else 0) + bits := by
  unfold ofParts
  rw [UInt64.toNat_ofNat', Nat.mod_eq_of_lt]
  unfold signPlace at *
  split <;> omega

theorem isNegative_ofParts (bound : bits < signPlace) :
    (ofParts negative bits).isNegative = negative := by
  unfold isNegative
  rw [toNat_ofParts bound]
  cases negative with
  | true => simp
  | false => simpa using bound

theorem magnitude_ofParts (bound : bits < signPlace) :
    (ofParts negative bits).bits.toNat % signPlace = bits := by
  rw [toNat_ofParts bound]
  cases negative with
  | true => rw [if_pos rfl, Nat.add_mod_left, Nat.mod_eq_of_lt bound]
  | false => simpa using Nat.mod_eq_of_lt bound

/-- Parts stand for the magnitude with the sign. -/
theorem value_ofParts (bound : bits < signPlace) :
    (ofParts negative bits).value = signOf negative * magnitude bits := by
  rw [value_eq, isNegative_ofParts bound, magnitude_ofParts bound]

/-- Numbers of one sign are told apart by the other bits. -/
theorem ofParts_inj {other : ℕ} (bound : bits < signPlace) (bound' : other < signPlace) :
    ofParts negative other = ofParts negative bits ↔ other = bits := by
  constructor
  · intro same
    rw [← magnitude_ofParts bound', same, magnitude_ofParts bound]
  · rintro rfl
    rfl

theorem isFinite_ofParts (bound : bits < infinityBits) : (ofParts negative bits).IsFinite := by
  unfold IsFinite
  rw [exponentField_eq, magnitude_ofParts (Nat.lt_trans bound (by decide))]
  unfold infinityBits fractionCount at *
  omega

end Parts

/-- A number is its sign and its other bits. -/
theorem ofParts_eq_self (x : Binary64) :
    ofParts x.isNegative (x.bits.toNat % signPlace) = x := by
  have bound : x.bits.toNat % signPlace < signPlace := Nat.mod_lt _ (by decide)
  have same : (ofParts x.isNegative (x.bits.toNat % signPlace)).bits = x.bits := by
    apply UInt64.toNat_inj.1
    rw [toNat_ofParts bound]
    have small := x.bits.toNat_lt
    unfold isNegative signPlace
    simp only [decide_eq_true_eq]
    split <;> omega
  exact congrArg Binary64.mk same

/-- Consecutive significands differ in their last bit, so one of two neighbours is even. -/
theorem significand_mod_two (x : Binary64) :
    x.significand % 2 = x.bits.toNat % signPlace % 2 := by
  have fraction := x.fraction_eq
  unfold significand fractionCount at *
  split <;> omega

theorem div_mod_fractionCount (field : ℕ) {fraction : ℕ} (small : fraction < fractionCount) :
    (field * fractionCount + fraction) / fractionCount = field ∧
      (field * fractionCount + fraction) % fractionCount = fraction := by
  have positive : 0 < fractionCount := by decide
  rw [mul_comm, Nat.mul_add_div positive, Nat.mul_add_mod, Nat.div_eq_of_lt small,
    Nat.mod_eq_of_lt small]
  exact ⟨rfl, rfl⟩

/-- A significand of 53 bits, or one too many for the carry, on the grid of `2^(place - 1074)`. A
smaller significand has the exponent field zero, and the carry leads to the next exponent with the
fraction zero. -/
theorem magnitude_place {place n : ℕ} (normal : fractionCount ≤ n ∨ place = 0)
    (bound : n ≤ 2 * fractionCount) :
    magnitude (place * fractionCount + n) = n * 2 ^ (place - 1074 : ℤ) := by
  unfold magnitude
  rcases Nat.lt_or_ge n fractionCount with least | large
  · obtain rfl : place = 0 := normal.resolve_left (by omega)
    have ⟨quotient, rest⟩ := div_mod_fractionCount 0 least
    rw [quotient, rest, if_pos rfl]
    norm_num
  · rcases Nat.lt_or_ge n (2 * fractionCount) with inside | carry
    · have ⟨quotient, rest⟩ := div_mod_fractionCount (place + 1)
        (by omega : n - fractionCount < fractionCount)
      have bits : place * fractionCount + n = (place + 1) * fractionCount + (n - fractionCount) := by
        rw [Nat.add_mul]
        omega
      have exponent : ((place + 1 : ℕ) - 1075 : ℤ) = place - 1074 := by omega
      rw [bits, quotient, rest, if_neg place.succ_ne_zero, max_eq_left (Nat.le_add_left 1 place),
        exponent, Nat.add_sub_cancel' large]
    · obtain rfl : n = 2 * fractionCount := by omega
      have ⟨quotient, rest⟩ := div_mod_fractionCount (place + 2) (by decide : 0 < fractionCount)
      have bits : place * fractionCount + 2 * fractionCount = (place + 2) * fractionCount + 0 := by
        ring
      have exponent : ((place + 2 : ℕ) - 1075 : ℤ) = (place - 1074) + 1 := by omega
      rw [bits, quotient, rest, if_neg (by omega), max_eq_left (by omega), exponent, two_zpow_succ]
      push_cast
      ring

/-- The first number that is too great would be `2 ^ 1024`. -/
theorem magnitude_infinityBits : magnitude infinityBits = 2 ^ (1024 : ℤ) :=
  calc magnitude infinityBits = fractionCount * 2 ^ ((2046 : ℕ) - 1074 : ℤ) :=
        @magnitude_place 2046 _ (.inl le_rfl) (by decide)
    _ = 2 ^ (52 : ℤ) * 2 ^ (972 : ℤ) := by norm_num [fractionCount]
    _ = 2 ^ (1024 : ℤ) := by
      rw [← two_zpow_add]
      norm_num

/-- A significand with few bits can be given more, so that every place has it. -/
theorem exists_magnitude (place : ℕ) {n : ℕ} (bound : n ≤ 2 * fractionCount) :
    ∃ bits ≤ (place + 2) * fractionCount, magnitude bits = n * 2 ^ (place - 1074 : ℤ) := by
  induction place generalizing n with
  | zero => exact ⟨_, by omega, magnitude_place (.inr rfl) bound⟩
  | succ place ih =>
    rcases Nat.lt_or_ge n fractionCount with few | full
    · obtain ⟨bits, least, same⟩ := ih (n := 2 * n) (by omega)
      refine ⟨bits, least.trans (Nat.mul_le_mul_right _ (Nat.le_succ _)), ?_⟩
      have exponent : ((place + 1 : ℕ) - 1074 : ℤ) = (place - 1074) + 1 := by omega
      rw [same, exponent, two_zpow_succ]
      push_cast
      ring
    · refine ⟨_, ?_, magnitude_place (.inl full) bound⟩
      rw [Nat.add_mul (place + 1) 2]
      omega

/-- The numbers of the form `m * 2 ^ k` with 53 bits in `m` and a small exponent. -/
theorem exists_value {m : ℤ} {k : ℕ} (bound : m.natAbs ≤ 2 * fractionCount) (small : k ≤ 63) :
    ∃ x : Binary64, x.IsFinite ∧ x.value = m * 2 ^ k := by
  obtain ⟨bits, most, same⟩ := exists_magnitude (k + 1074) bound
  have finite : bits < infinityBits := by
    unfold infinityBits fractionCount at *
    omega
  refine ⟨ofParts (m < 0) bits, isFinite_ofParts finite, ?_⟩
  have exponent : ((k + 1074 : ℕ) - 1074 : ℤ) = k := by omega
  rw [value_ofParts (Nat.lt_trans finite (by decide)), same, exponent, zpow_natCast]
  rcases Int.lt_or_le m 0 with below | above
  · have size : (m.natAbs : ℚ) = -m := by
      rw [Nat.cast_natAbs, abs_of_neg below, Int.cast_neg]
    rw [signOf, if_pos (decide_eq_true below), size]
    ring
  · have size : (m.natAbs : ℚ) = m := by rw [Nat.cast_natAbs, abs_of_nonneg above]
    rw [signOf, if_neg (by simpa using above), size]
    ring

/-! ## Grids -/

theorem significand_lt (x : Binary64) : x.significand < 2 * fractionCount := by
  have fraction := x.fraction_eq
  unfold significand fractionCount at *
  split <;> omega

theorem scale_ge (x : Binary64) : -1074 ≤ x.scale := by
  unfold scale
  rw [Int.ofNat_eq_natCast]
  split <;> omega

/-- The significand counts units of the place value. -/
theorem abs_value (x : Binary64) : |x.value| = x.significand * 2 ^ x.scale := by
  unfold value
  rw [abs_signOf_mul, abs_of_nonneg (mul_nonneg (Nat.cast_nonneg _) (two_zpow_pos _).le)]

/-- Beyond `2 ^ (52 + s)` no number has a bit below `2 ^ s`, and none below the least place. -/
theorem on_grid {x : Binary64} {s : ℤ} (coarse : s = -1074 ∨ 2 ^ (52 + s) ≤ |x.value|) :
    ∃ j : ℤ, x.value = j * 2 ^ s := by
  have above : s ≤ x.scale := by
    rcases coarse with rfl | large
    · exact x.scale_ge
    · by_contra below
      have bound : (x.significand : ℚ) < 2 ^ (53 : ℤ) := by exact_mod_cast x.significand_lt
      have finer : (2 : ℚ) ^ x.scale ≤ 2 ^ (s - 1) := zpow_le_zpow_right₀ one_le_two (by omega)
      have least : |x.value| < 2 ^ (52 + s) :=
        calc |x.value| = x.significand * 2 ^ x.scale := x.abs_value
          _ < 2 ^ (53 : ℤ) * 2 ^ x.scale := mul_lt_mul_of_pos_right bound (two_zpow_pos _)
          _ ≤ 2 ^ (53 : ℤ) * 2 ^ (s - 1) := mul_le_mul_of_nonneg_left finer (two_zpow_pos _).le
          _ = 2 ^ (52 + s) := by
            rw [← two_zpow_add]
            congr 1
            ring
      exact absurd large (not_le.2 least)
  have exponent : x.scale = s + (x.scale - s).toNat := by omega
  refine ⟨(if x.isNegative then -1 else 1) * (x.significand * 2 ^ (x.scale - s).toNat), ?_⟩
  unfold value
  rw [exponent, two_zpow_add, zpow_natCast, ← exponent]
  cases x.isNegative <;> norm_num [signOf] <;> ring

end HostBridge.Binary64
