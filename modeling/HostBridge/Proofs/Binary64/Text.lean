import HostBridge.Proofs.Binary64.Printing
import HostBridge.Proofs.Yaml.Decimals

/-!
# The text of a finite number

A finite number is written as its shortest decimal with its sign, which is read as the same number,
and with a power of ten exactly below `1e-4` and from `1e16` on (`Binary64.toText_written`).
-/

namespace HostBridge.Binary64

open Decimal (Scaled)

/-- The text is that of a shortest decimal, laid out by how great the number is. -/
structure Written (x : Binary64) (text : String) : Prop where
  shortest : ∃ d : Scaled, x.IsShortest d ∧
    text.toList = if x.isNegative then '-' :: d.render layout else d.render layout
  reads : Yaml.real? text.toList = some x
  scientific : x.isZero = false →
    ('e' ∈ text.toList ↔ |x.value| < 10 ^ (-4 : ℤ) ∨ 10 ^ (16 : ℤ) ≤ |x.value|)

section Text

variable {x : Binary64}

/-- The text of a finite number is that of a decimal with its sign. -/
theorem toList_toText (finite : x.IsFinite) :
    x.toText.toList = if x.isNegative then '-' :: x.shortest.render layout
      else x.shortest.render layout := by
  unfold toText
  rw [finite.isNaN, finite.isInfinite, if_neg Bool.false_ne_true]
  dsimp only
  rw [if_neg Bool.false_ne_true, String.toList_ofList, magnitudeText_eq]

/-- Zeros behind the digits change nothing in what is read. -/
theorem ofDecimal_shortest (finite : x.IsFinite) (k : ℕ) :
    ofDecimal x.isNegative (x.shortest.digits * 10 ^ k) (x.shortest.exponent - k) = x := by
  have reads := (shortest_isShortest finite).reads
  cases zero : x.isZero with
  | true =>
    have shortest : x.shortest = ⟨0, 0⟩ := if_pos zero
    rw [shortest] at reads ⊢
    rw [Nat.zero_mul, ofDecimal_zero, ← ofDecimal_zero x.isNegative 0]
    exact reads
  | false =>
    rw [ofDecimal_eq_self_iff finite zero, ← x.shortest.value_zeros k] at reads
    exact (ofDecimal_eq_self_iff finite zero ⟨_, _⟩).2 reads

theorem real?_toText (finite : x.IsFinite) : Yaml.real? x.toText.toList = some x := by
  obtain ⟨c, s, head, digit⟩ := Yaml.render_head x.shortest layout
  obtain ⟨k, read⟩ := Yaml.decimal?_render x.shortest layout
  rw [toList_toText finite, head, Yaml.real?_of_isDigit digit, ← head, read, Option.map_some]
  exact congrArg some (ofDecimal_shortest finite k)

/-! ## Powers of ten -/

/-- A power of ten that is not above the number it is read as has no other number and its decimal on
different sides. Between the two the power would be read as the number, so the number is not below
it; nor is the decimal, since the power is nearer and has one digit. -/
theorem power_le_iff (finite : x.IsFinite) (other : x.isZero = false) {k : ℤ} {bits : ℕ}
    (rounds : RoundsTo (10 ^ k) bits) (reached : 10 ^ k ≤ magnitude bits) :
    10 ^ k ≤ x.shortest.value ↔ 10 ^ k ≤ |x.value| := by
  have shortest := shortest_isShortest finite
  have reads_iff := ofDecimal_eq_self_iff finite other
  have inside := (reads_iff _).1 shortest.reads
  have proper := interval_proper other
  have size : |x.value| = x.interval.middle := by
    rw [abs_value, interval_middle, magnitude_eq]
  have same (between : x.interval.Contains (10 ^ k)) : x.interval.middle = magnitude bits := by
    rw [interval_middle, ((contains_interval_iff other).1 between).unique rounds]
  rw [size]
  constructor
  · intro above
    by_contra below
    have between := proper.contains_middle.between inside (not_le.1 below).le above
    exact below (same between ▸ reached)
  · intro above
    by_contra below
    have between := inside.between proper.contains_middle (not_le.1 below).le above
    have power : (⟨1, k⟩ : Scaled).value = 10 ^ k := by
      unfold Scaled.value
      rw [Nat.cast_one, one_mul]
    have reads := (reads_iff ⟨1, k⟩).2 (power ▸ between)
    have one : (⟨1, k⟩ : Scaled).length = 1 :=
      congrArg List.length (Nat.toDigits_of_lt_base (by decide : 1 < 10))
    have single : (⟨1, k⟩ : Scaled).length = x.shortest.length := by
      have fewest := shortest.fewest _ reads
      have some := x.shortest.length_pos
      omega
    have nearer := shortest.nearest _ reads single
    rw [distance_middle, distance_middle, power, abs_sub_comm, abs_sub_comm _ x.interval.middle,
      abs_of_nonneg (by linarith), abs_of_nonneg (by linarith)] at nearer
    linarith

theorem roundsTo_ten_thousandth :
    RoundsTo (10 ^ (-4 : ℤ)) 0x3F1A36E2EB1C432D ∧
      (10 : ℚ) ^ (-4 : ℤ) ≤ magnitude 0x3F1A36E2EB1C432D := by
  have rounds := (@bitsOfQuotient_eq_iff 1 10000 0x3F1A36E2EB1C432D (by decide) (by decide)
    (by decide)).1 (by decide)
  norm_num [magnitude, fractionCount] at rounds ⊢
  exact rounds

theorem roundsTo_ten_quadrillion :
    RoundsTo (10 ^ (16 : ℤ)) 0x4341C37937E08000 ∧
      (10 : ℚ) ^ (16 : ℤ) ≤ magnitude 0x4341C37937E08000 := by
  have rounds := (@bitsOfQuotient_eq_iff 10000000000000000 1 0x4341C37937E08000 (by decide)
    (by decide) (by decide)).1 (by decide)
  norm_num [magnitude, fractionCount] at rounds ⊢
  exact rounds

/-- A power of ten is written for numbers below `1e-4` and from `1e16` on. -/
theorem e_mem_toText (finite : x.IsFinite) (other : x.isZero = false) :
    'e' ∈ x.toText.toList ↔ |x.value| < 10 ^ (-4 : ℤ) ∨ 10 ^ (16 : ℤ) ≤ |x.value| := by
  have small := power_le_iff finite other roundsTo_ten_thousandth.1 roundsTo_ten_thousandth.2
  have large := power_le_iff finite other roundsTo_ten_quadrillion.1 roundsTo_ten_quadrillion.2
  have some : 0 < x.shortest.digits :=
    (interval_proper other).digits_pos
      ((ofDecimal_eq_self_iff finite other _).1 (shortest_isShortest finite).reads)
  have sign : 'e' ∈ x.toText.toList ↔ 'e' ∈ x.shortest.render layout := by
    rw [toList_toText finite]
    cases x.isNegative <;> simp
  have places : ((Nat.toDigits 10 x.shortest.digits).length : ℤ) = x.shortest.length := rfl
  rw [sign, Yaml.e_mem_render, places, ← not_le, ← small, ← large, Scaled.power_le_value_iff some,
    Scaled.power_le_value_iff some]
  unfold layout
  dsimp only
  omega

theorem toText_written (finite : x.IsFinite) : x.Written x.toText where
  shortest := ⟨x.shortest, shortest_isShortest finite, toList_toText finite⟩
  reads := real?_toText finite
  scientific := e_mem_toText finite

end Text

end HostBridge.Binary64
