import HostBridge.Proofs.Decimal.Places
import Mathlib.Algebra.Order.Ring.Abs
import Mathlib.Tactic.Linarith
import Mathlib.Tactic.Positivity

/-!
# The search for the shortest decimal

`Interval.shortest` takes the coarsest decimal grid with a point in the interval, and on it the point
nearest to the middle (`Interval.shortest_isCoarsest`). That is a decimal with the fewest digits: one
with fewer digits would be on the other side of a power of ten, which lies in the interval as well and
on a coarser grid (`Interval.IsCoarsest.length_le`).
-/

namespace HostBridge.Decimal.Interval

/-- The rational numbers of an interval. -/
def Contains (i : Interval) (q : ℚ) : Prop :=
  if i.closed then i.low * 2 ^ i.scale ≤ q ∧ q ≤ i.high * 2 ^ i.scale
  else i.low * 2 ^ i.scale < q ∧ q < i.high * 2 ^ i.scale

/-- The number that an interval is about. -/
def middle (i : Interval) : ℚ :=
  i.centre * 2 ^ i.scale

/-- The interval is about a positive number, which is not at its ends. -/
structure Proper (i : Interval) : Prop where
  positive : 0 < i.low
  below : i.low < i.centre
  above : i.centre < i.high

section Contains

variable {i : Interval} {p q r : ℚ}

theorem Contains.bounds (inside : i.Contains q) :
    i.low * 2 ^ i.scale ≤ q ∧ q ≤ i.high * 2 ^ i.scale := by
  unfold Contains at inside
  split at inside
  · exact inside
  · exact ⟨inside.1.le, inside.2.le⟩

/-- An interval has no holes. -/
theorem Contains.between (left : i.Contains p) (right : i.Contains r) (above : p ≤ q)
    (below : q ≤ r) : i.Contains q := by
  unfold Contains at *
  split at left
  · next closed =>
    rw [if_pos closed] at right ⊢
    exact ⟨left.1.trans above, below.trans right.2⟩
  · next open' =>
    rw [if_neg open'] at right ⊢
    exact ⟨left.1.trans_le above, below.trans_lt right.2⟩

/-- The number itself is in its interval. -/
theorem Proper.contains_middle (proper : i.Proper) : i.Contains i.middle := by
  have unit : (0 : ℚ) < 2 ^ i.scale := zpow_pos two_pos _
  have below : i.low * (2 : ℚ) ^ i.scale < i.centre * 2 ^ i.scale :=
    mul_lt_mul_of_pos_right (by exact_mod_cast proper.below) unit
  have above : i.centre * (2 : ℚ) ^ i.scale < i.high * 2 ^ i.scale :=
    mul_lt_mul_of_pos_right (by exact_mod_cast proper.above) unit
  unfold Contains middle
  split
  · exact ⟨below.le, above.le⟩
  · exact ⟨below, above⟩

theorem Proper.pos (proper : i.Proper) (inside : i.Contains q) : 0 < q := by
  have low : (0 : ℚ) < i.low := by exact_mod_cast proper.positive
  exact (mul_pos low (zpow_pos two_pos _)).trans_le inside.bounds.1

end Contains

/-! ## Both sides without denominators -/

section Factors

variable (i : Interval) (e : ℤ)

/-- What both sides of a comparison are multiplied by. -/
def clearing : ℚ :=
  2 ^ (-i.scale).toNat * 10 ^ (-e).toNat

theorem clearing_pos : 0 < i.clearing e := by
  unfold clearing
  positivity

theorem decimalFactor_eq : (i.decimalFactor e : ℚ) = 10 ^ e * i.clearing e := by
  unfold decimalFactor clearing
  simp only [Nat.pow_eq]
  push_cast
  rw [pow_toNat (by norm_num) e]
  ring

theorem binaryFactor_eq : (i.binaryFactor e : ℚ) = 2 ^ i.scale * i.clearing e := by
  unfold binaryFactor clearing
  simp only [Nat.pow_eq]
  push_cast
  rw [pow_toNat two_pos i.scale]
  ring

theorem decimalFactor_pos : 0 < i.decimalFactor e := by
  have positive : (0 : ℚ) < i.decimalFactor e := by
    rw [decimalFactor_eq]
    exact mul_pos (ten_zpow_pos e) (i.clearing_pos e)
  exact_mod_cast positive

theorem le_iff (n d : ℕ) :
    n * i.binaryFactor e ≤ d * i.decimalFactor e ↔ (n : ℚ) * 2 ^ i.scale ≤ d * 10 ^ e := by
  rw [← Nat.cast_le (α := ℚ), Nat.cast_mul, Nat.cast_mul, decimalFactor_eq, binaryFactor_eq,
    ← mul_assoc, ← mul_assoc, mul_le_mul_iff_left₀ (i.clearing_pos e)]

theorem ge_iff (n d : ℕ) :
    d * i.decimalFactor e ≤ n * i.binaryFactor e ↔ (d : ℚ) * 10 ^ e ≤ n * 2 ^ i.scale := by
  rw [← Nat.cast_le (α := ℚ), Nat.cast_mul, Nat.cast_mul, decimalFactor_eq, binaryFactor_eq,
    ← mul_assoc, ← mul_assoc, mul_le_mul_iff_left₀ (i.clearing_pos e)]

/-- The comparison of integers decides whether a point of the grid is in the interval. -/
theorem holds_iff (d : ℕ) : i.holds e d = true ↔ i.Contains (d * 10 ^ e) := by
  unfold holds Contains
  dsimp only
  split
  · rw [Bool.and_eq_true, decide_eq_true_eq, decide_eq_true_eq, le_iff, ge_iff]
  · rw [Bool.and_eq_true, decide_eq_true_eq, decide_eq_true_eq, ← not_le, ← not_le, ge_iff, le_iff,
      not_le, not_le]

end Factors

/-! ## One grid -/

/-- A multiple of `10 ^ e` in the interval that no other one is nearer to the middle than. -/
structure IsNearestOn (i : Interval) (e : ℤ) (d : ℕ) : Prop where
  inside : i.Contains (d * 10 ^ e)
  nearest : ∀ d' : ℕ, i.Contains (d' * 10 ^ e) → |d * 10 ^ e - i.middle| ≤ |d' * 10 ^ e - i.middle|

/-- The middle is between two neighbours on the grid. -/
structure Neighbours (i : Interval) (e : ℤ) (below : ℕ) : Prop where
  reached : below * 10 ^ e ≤ i.middle
  passed : i.middle < (below + 1 : ℕ) * 10 ^ e

section Grid

variable {i : Interval} {e : ℤ} {d below : ℕ}

/-- Division finds the points of the grid on both sides of the middle. -/
theorem neighbours (i : Interval) (e : ℤ) :
    i.Neighbours e (i.centre * i.binaryFactor e / i.decimalFactor e) where
  reached := (i.ge_iff e _ _).1 (Nat.div_mul_le_self _ _)
  passed := by
    rw [middle, ← not_le, ← i.ge_iff e, not_le, Nat.add_mul, Nat.one_mul]
    exact Nat.lt_div_mul_add (i.decimalFactor_pos e)

theorem mul_ten_zpow_le {a b : ℕ} (order : a ≤ b) (e : ℤ) : (a : ℚ) * 10 ^ e ≤ b * 10 ^ e :=
  mul_le_mul_of_nonneg_right (by exact_mod_cast order) (ten_zpow_pos e).le

/-- Where the grid has a point in the interval, one of the two neighbours of the middle is one. -/
theorem Neighbours.contains (around : i.Neighbours e below) (proper : i.Proper)
    (inside : i.Contains (d * 10 ^ e)) :
    d ≤ below ∧ i.Contains (below * 10 ^ e) ∨
      below + 1 ≤ d ∧ i.Contains ((below + 1 : ℕ) * 10 ^ e) := by
  have middle := proper.contains_middle
  rcases Nat.lt_or_ge below d with right | left
  · exact .inr ⟨right, middle.between inside around.passed.le (mul_ten_zpow_le right e)⟩
  · exact .inl ⟨left, inside.between middle (mul_ten_zpow_le left e) around.reached⟩

/-- A neighbour in the interval is the nearest point, unless the other one is as well and nearer. -/
theorem Neighbours.isNearestOn_below (around : i.Neighbours e below) (proper : i.Proper)
    (inside : i.Contains (below * 10 ^ e))
    (nearer : i.Contains ((below + 1 : ℕ) * 10 ^ e) →
      i.middle - below * 10 ^ e ≤ (below + 1 : ℕ) * 10 ^ e - i.middle) :
    i.IsNearestOn e below := by
  refine ⟨inside, fun d inside' => ?_⟩
  rw [abs_sub_comm, abs_of_nonneg (sub_nonneg.2 around.reached)]
  rcases around.contains proper inside' with ⟨left, -⟩ | ⟨right, inside'⟩
  · rw [abs_sub_comm]
    exact (sub_le_sub_left (mul_ten_zpow_le left e) _).trans (le_abs_self _)
  · calc i.middle - below * 10 ^ e ≤ (below + 1 : ℕ) * 10 ^ e - i.middle := nearer inside'
      _ ≤ d * 10 ^ e - i.middle := sub_le_sub_right (mul_ten_zpow_le right e) _
      _ ≤ |d * 10 ^ e - i.middle| := le_abs_self _

theorem Neighbours.isNearestOn_above (around : i.Neighbours e below) (proper : i.Proper)
    (inside : i.Contains ((below + 1 : ℕ) * 10 ^ e))
    (nearer : i.Contains (below * 10 ^ e) →
      (below + 1 : ℕ) * 10 ^ e - i.middle ≤ i.middle - below * 10 ^ e) :
    i.IsNearestOn e (below + 1) := by
  refine ⟨inside, fun d inside' => ?_⟩
  rw [abs_of_pos (sub_pos.2 around.passed)]
  rcases around.contains proper inside' with ⟨left, inside'⟩ | ⟨right, -⟩
  · rw [abs_sub_comm]
    calc (below + 1 : ℕ) * 10 ^ e - i.middle ≤ i.middle - below * 10 ^ e := nearer inside'
      _ ≤ i.middle - d * 10 ^ e := sub_le_sub_left (mul_ten_zpow_le left e) _
      _ ≤ |i.middle - d * 10 ^ e| := le_abs_self _
  · exact (sub_le_sub_right (mul_ten_zpow_le right e) _).trans (le_abs_self _)

/-- Which neighbour is nearer is decided by the rest of the division. -/
theorem rest_iff (i : Interval) (e : ℤ) (below : ℕ)
    (eq : below = i.centre * i.binaryFactor e / i.decimalFactor e) :
    2 * (i.centre * i.binaryFactor e % i.decimalFactor e) < i.decimalFactor e ↔
      i.middle - below * 10 ^ e < (below + 1 : ℕ) * 10 ^ e - i.middle := by
  have division := Nat.div_add_mod (i.centre * i.binaryFactor e) (i.decimalFactor e)
  rw [← eq] at division
  generalize i.centre * i.binaryFactor e % i.decimalFactor e = rest at division
  have scaled : (rest : ℚ) = (i.middle - below * 10 ^ e) * i.clearing e := by
    rw [← Nat.cast_inj (R := ℚ)] at division
    push_cast at division
    rw [decimalFactor_eq, binaryFactor_eq] at division
    unfold middle
    linarith
  rw [← Nat.cast_lt (α := ℚ), Nat.cast_mul, scaled, decimalFactor_eq, Nat.cast_two, ← mul_assoc,
    mul_lt_mul_iff_left₀ (i.clearing_pos e)]
  push_cast
  constructor <;> intro <;> linarith

/-- What `nearestOn` answers: a nearest point, or that there is none. -/
theorem nearestOn_spec (proper : i.Proper) (e : ℤ) :
    (∃ d, i.nearestOn e = some d ∧ i.IsNearestOn e d) ∨
      i.nearestOn e = none ∧ ∀ d : ℕ, ¬ i.Contains (d * 10 ^ e) := by
  have around := i.neighbours e
  have rest := i.rest_iff e _ rfl
  unfold nearestOn
  dsimp only
  generalize i.centre * i.binaryFactor e / i.decimalFactor e = below at around rest ⊢
  have left := i.holds_iff e below
  have right := i.holds_iff e (below + 1)
  split
  · next holds holds' =>
    refine .inl ⟨_, rfl, ?_⟩
    split
    · next less => exact around.isNearestOn_below proper (left.1 holds) fun _ => (rest.1 less).le
    · next more =>
      exact around.isNearestOn_above proper (right.1 holds') fun _ => not_lt.1 (mt rest.2 more)
  · next holds fails =>
    rw [fails] at right
    exact .inl ⟨_, rfl, around.isNearestOn_below proper (left.1 holds) fun inside =>
      absurd (right.2 inside) Bool.false_ne_true⟩
  · next fails holds =>
    rw [fails] at left
    exact .inl ⟨_, rfl, around.isNearestOn_above proper (right.1 holds) fun inside =>
      absurd (left.2 inside) Bool.false_ne_true⟩
  · next fails fails' =>
    rw [fails] at left
    rw [fails'] at right
    refine .inr ⟨rfl, fun d inside => ?_⟩
    rcases around.contains proper inside with ⟨-, inside⟩ | ⟨-, inside⟩
    · exact absurd (left.2 inside) Bool.false_ne_true
    · exact absurd (right.2 inside) Bool.false_ne_true

end Grid

/-! ## All grids -/

/-- The nearest point on the coarsest grid that has a point in the interval. -/
structure IsCoarsest (i : Interval) (x : Scaled) : Prop where
  nearest : i.IsNearestOn x.exponent x.digits
  coarsest : ∀ e > x.exponent, ∀ d : ℕ, ¬ i.Contains (d * 10 ^ e)

section Search

variable {i : Interval} {x : Scaled} {e : ℤ}

/-- The search starts above the interval: for great exponents since ten is greater than the third
power of two, for small ones since it is less than the fourth. -/
theorem high_lt_start (i : Interval) : i.high * (2 : ℚ) ^ i.scale < 10 ^ i.startExponent := by
  have size : (i.high : ℚ) < 2 ^ (i.high.log2 + 1 : ℤ) := by exact_mod_cast Nat.lt_log2_self
  have power : i.high * (2 : ℚ) ^ i.scale < 2 ^ (i.high.log2 + 1 + i.scale : ℤ) := by
    rw [zpow_add₀ two_ne_zero]
    exact mul_lt_mul_of_pos_right size (zpow_pos two_pos _)
  refine power.trans_le ?_
  unfold startExponent
  rw [Int.ofNat_eq_natCast]
  dsimp only
  generalize (i.high.log2 + 1 + i.scale : ℤ) = n
  split
  · exact two_zpow_le_ten_zpow (by omega) (by omega)
  · rw [← inv_le_inv₀ (ten_zpow_pos _) (zpow_pos two_pos n), ← zpow_neg, ← zpow_neg, neg_neg]
    calc (10 : ℚ) ^ (-n / 4) ≤ (2 ^ (4 : ℤ)) ^ (-n / 4) :=
          zpow_le_zpow_left₀ (by omega) (by norm_num) (by norm_num)
      _ = 2 ^ (4 * (-n / 4)) := (zpow_mul 2 4 _).symm
      _ ≤ 2 ^ (-n) := zpow_le_zpow_right₀ one_le_two (by omega)

theorem scale_le_start (i : Interval) : min i.scale 0 ≤ i.startExponent := by
  unfold startExponent
  rw [Int.ofNat_eq_natCast]
  dsimp only
  split <;> omega

/-- The grid that the search goes down to has the middle on it. -/
theorem exists_middle (i : Interval) : ∃ d : ℕ, i.middle = d * 10 ^ min i.scale 0 := by
  unfold middle
  rcases Int.le_total 0 i.scale with above | below
  · refine ⟨i.centre * 2 ^ i.scale.toNat, ?_⟩
    rw [min_eq_right above, zpow_zero, mul_one, Nat.cast_mul, Nat.cast_pow, Nat.cast_two,
      ← zpow_natCast, Int.toNat_of_nonneg above]
  · refine ⟨i.centre * 5 ^ (-i.scale).toNat, ?_⟩
    have ten : (10 : ℚ) ^ i.scale = 5 ^ i.scale * 2 ^ i.scale := by
      rw [← mul_zpow]
      norm_num
    have five : (5 : ℚ) ^ (-i.scale).toNat * 5 ^ i.scale = 1 := by
      rw [← zpow_natCast, Int.toNat_of_nonneg (by omega), ← zpow_add₀ (by norm_num),
        neg_add_cancel, zpow_zero]
    rw [min_eq_left below, ten, Nat.cast_mul, Nat.cast_pow, Nat.cast_ofNat, mul_assoc,
      ← mul_assoc _ (5 ^ i.scale), five, one_mul]

/-- Coarser grids than the first one have no point in the interval. -/
theorem not_contains_of_start_le (proper : i.Proper) (beyond : i.startExponent ≤ e) (d : ℕ) :
    ¬ i.Contains (d * 10 ^ e) := by
  intro inside
  have positive := proper.pos inside
  have some : 1 ≤ d := by
    rcases Nat.eq_zero_or_pos d with rfl | some
    · rw [Nat.cast_zero, zero_mul] at positive
      exact absurd positive (lt_irrefl 0)
    · exact some
  have large := mul_ten_zpow_le some e
  rw [Nat.cast_one, one_mul] at large
  have start := ten_zpow_mono beyond
  linarith [i.high_lt_start, inside.bounds.2]

/-- What is passed before a number of the range is found are the smaller numbers. -/
theorem mem_before_of_range {n k j : ℕ} {before behind : List ℕ}
    (range : List.range n = before ++ k :: behind) (less : j < k) : j ∈ before := by
  have k_mem : k ∈ List.range n := by simp [range]
  have j_mem : j ∈ List.range n := List.mem_range.2 (less.trans (List.mem_range.1 k_mem))
  have order := @List.pairwise_lt_range n
  rw [range, List.pairwise_append, List.pairwise_cons] at order
  rw [range, List.mem_append, List.mem_cons] at j_mem
  rcases j_mem with mem | rfl | behind
  · exact mem
  · exact absurd less (Nat.lt_irrefl j)
  · exact absurd (order.2.1.1 j behind) (Nat.lt_asymm less)

/-- The search stops at the first grid with a point in the interval, and takes the nearest of them.
-/
theorem shortest_isCoarsest (proper : i.Proper) : i.IsCoarsest i.shortest := by
  have none_iff {e : ℤ} (none : i.nearestOn e = none) (d : ℕ) : ¬ i.Contains (d * 10 ^ e) := by
    rcases i.nearestOn_spec proper e with ⟨d, found, -⟩ | ⟨-, free⟩
    · rw [found] at none
      cases none
    · exact free d
  unfold shortest
  dsimp only
  generalize found_eq : List.findSome? _ _ = found
  cases found with
  | none =>
    exfalso
    have last := List.findSome?_eq_none_iff.1 found_eq
      (i.startExponent - min i.scale 0).toNat (List.mem_range.2 (Nat.lt_succ_self _))
    rw [Option.map_eq_none_iff, Int.toNat_of_nonneg (by have := i.scale_le_start; omega),
      sub_sub_cancel] at last
    obtain ⟨d, middle⟩ := i.exists_middle
    exact none_iff last d (middle ▸ proper.contains_middle)
  | some x =>
    rw [Option.getD_some]
    obtain ⟨before, k, behind, range, here, earlier⟩ := List.findSome?_eq_some_iff.1 found_eq
    obtain ⟨d, found, rfl⟩ := Option.map_eq_some_iff.1 here
    constructor
    · rcases i.nearestOn_spec proper (i.startExponent - k) with ⟨d', found', nearest⟩ | ⟨none, -⟩
      · rw [found] at found'
        cases found'
        exact nearest
      · rw [none] at found
        cases found
    · intro e coarser
      dsimp only at coarser
      rcases Int.le_total i.startExponent e with beyond | inside
      · exact not_contains_of_start_le proper beyond
      · have none := earlier (i.startExponent - e).toNat (mem_before_of_range range (by omega))
        rw [Option.map_eq_none_iff, Int.toNat_of_nonneg (by omega), sub_sub_cancel] at none
        exact none_iff none

end Search

/-! ## Digits -/

section Digits

variable {i : Interval} {x y : Scaled}

theorem IsCoarsest.inside (coarsest : i.IsCoarsest x) : i.Contains x.value :=
  coarsest.nearest.inside

/-- No decimal in the interval is on a coarser grid. -/
theorem IsCoarsest.exponent_le (coarsest : i.IsCoarsest x) (inside : i.Contains y.value) :
    y.exponent ≤ x.exponent := by
  by_contra coarser
  exact coarsest.coarsest _ (not_le.1 coarser) _ inside

theorem Proper.digits_pos (proper : i.Proper) (inside : i.Contains x.value) : 0 < x.digits := by
  rcases Nat.eq_zero_or_pos x.digits with zero | some
  · have positive := proper.pos inside
    unfold Scaled.value at positive
    rw [zero, Nat.cast_zero, zero_mul] at positive
    exact absurd positive (lt_irrefl 0)
  · exact some

/-- A decimal on a finer grid with no more digits is less than a power of ten that the other one
reaches. -/
theorem IsCoarsest.power (coarsest : i.IsCoarsest x) (proper : i.Proper)
    (inside : i.Contains y.value) (shorter : y.length + y.exponent < x.length + x.exponent) :
    y.value < 10 ^ (x.length + x.exponent - 1) ∧
      i.Contains ((1 : ℕ) * 10 ^ (x.length + x.exponent - 1)) := by
  have less : y.value < 10 ^ (x.length + x.exponent - 1) :=
    y.value_lt.trans_le (ten_zpow_mono (by omega))
  have reached := Scaled.value_ge (proper.digits_pos coarsest.inside)
  rw [Nat.cast_one, one_mul]
  exact ⟨less, inside.between coarsest.inside less.le reached⟩

/-- No decimal in the interval has fewer digits. -/
theorem IsCoarsest.length_le (coarsest : i.IsCoarsest x) (proper : i.Proper)
    (inside : i.Contains y.value) : x.length ≤ y.length := by
  by_contra fewer
  have finer := coarsest.exponent_le inside
  have some := y.length_pos
  exact coarsest.coarsest _ (by omega) 1 (coarsest.power proper inside (by omega)).2

/-- Where the interval goes from a power of ten that is above the middle down to nine tenths of it,
the middle is nearer to the power. -/
def LeansToPowers (i : Interval) : Prop :=
  ∀ e : ℤ, i.Contains (9 * 10 ^ (e - 1)) → i.Contains (10 ^ e) → i.middle < 10 ^ e →
    10 ^ e - i.middle ≤ i.middle - 9 * 10 ^ (e - 1)

theorem value_le_of_length_one (single : y.length = 1) {e : ℤ} (finer : y.exponent < e) :
    y.value ≤ 9 * 10 ^ (e - 1) := by
  have digit := y.digits_lt
  rw [single] at digit
  calc y.value ≤ 9 * 10 ^ y.exponent :=
        mul_le_mul_of_nonneg_right (by exact_mod_cast Nat.le_of_lt_succ digit) (ten_zpow_pos _).le
    _ ≤ 9 * 10 ^ (e - 1) := mul_le_mul_of_nonneg_left (ten_zpow_mono (by omega)) (by norm_num)

/-- No decimal in the interval with as many digits is nearer to the middle. If it is on a finer
grid, a power of ten lies between the two, and since no coarser grid has a point in the interval,
both have but one digit. -/
theorem IsCoarsest.nearest_of_length (coarsest : i.IsCoarsest x) (proper : i.Proper)
    (leans : i.LeansToPowers) (inside : i.Contains y.value) (same : y.length = x.length) :
    |x.value - i.middle| ≤ |y.value - i.middle| := by
  rcases (coarsest.exponent_le inside).eq_or_lt with grid | finer
  · unfold Scaled.value at inside ⊢
    rw [grid] at inside ⊢
    exact coarsest.nearest.nearest _ inside
  · obtain ⟨less, power⟩ := coarsest.power proper inside (by omega)
    have single : x.length = 1 := by
      have some := x.length_pos
      by_contra more
      exact coarsest.coarsest _ (by omega) 1 power
    have exponent : (x.length : ℤ) + x.exponent - 1 = x.exponent := by omega
    rw [exponent] at less power
    have nearer := coarsest.nearest.nearest 1 power
    rw [Nat.cast_one, one_mul] at power nearer
    refine nearer.trans ?_
    rcases le_or_gt (10 ^ x.exponent) i.middle with above | below
    · rw [abs_sub_comm, abs_of_nonneg (sub_nonneg.2 above), abs_sub_comm, abs_of_nonneg]
      <;> linarith
    · have tenths := value_le_of_length_one (same.trans single) finer
      have lower : i.Contains (9 * 10 ^ (x.exponent - 1)) := by
        refine inside.between power tenths ?_
        rw [ten_zpow_pred x.exponent]
        exact mul_le_mul_of_nonneg_right (by norm_num) (ten_zpow_pos _).le
      have middle := leans x.exponent lower power below
      rw [abs_of_pos (sub_pos.2 below), abs_sub_comm, abs_of_nonneg] <;> linarith

end Digits

end HostBridge.Decimal.Interval
