import HostBridge.Proofs.Binary64.Rounding

/-!
# Rounding to the nearest number

The half-way points between neighbouring magnitudes divide the line: what lies between two of them is
rounded to the magnitude in the middle, and they themselves to the neighbour with even bits
(`Binary64.bitsOfQuotient_eq_iff`). That magnitude is nearest, and a tie goes to the even significand
(`Binary64.RoundsTo.isNearest`).
-/

namespace HostBridge.Binary64

/-- `q` lies between the half-way points around a magnitude, and at one of them only if the bits are
even. -/
structure RoundsTo (q : ℚ) (bits : ℕ) : Prop where
  low : magnitude (bits - 1) + magnitude bits ≤ 2 * q
  high : 2 * q ≤ magnitude bits + magnitude (bits + 1)
  even : 2 * q = magnitude (bits - 1) + magnitude bits ∨
    2 * q = magnitude bits + magnitude (bits + 1) → bits % 2 = 0

section RoundsTo

variable {q : ℚ} {bits : ℕ}

/-- The half-way points of neighbours come in their order, so only one magnitude is possible. Two
could only be neighbours with `q` half-way between them, and one of those is odd. -/
theorem RoundsTo.le {other : ℕ} (here : RoundsTo q bits) (there : RoundsTo q other) :
    bits ≤ other := by
  by_contra less
  have steps : other ≤ bits - 1 ∧ other + 1 ≤ bits := by omega
  have below := magnitude_strictMono.monotone steps.1
  have above := magnitude_strictMono.monotone steps.2
  have middle : 2 * q = magnitude other + magnitude (other + 1) := by
    linarith [here.low, there.high]
  have next : magnitude (other + 1) = magnitude bits := by linarith [here.low]
  have next := magnitude_strictMono.injective next
  have even := there.even (.inr middle)
  have even' := here.even (.inl (by linarith [here.low]))
  omega

theorem RoundsTo.unique {other : ℕ} (here : RoundsTo q bits) (there : RoundsTo q other) :
    bits = other :=
  Nat.le_antisymm (here.le there) (there.le here)

/-- A quotient that is within half a place is between the half-way points, which are at least half a
place away. -/
theorem Rounded.roundsTo {s : ℤ} {n : ℕ} (rounded : Rounded q bits s n) (positive : 0 ≤ q) :
    RoundsTo q bits := by
  obtain ⟨near, even⟩ := rounded.distance
  obtain ⟨left, right⟩ := abs_le.1 near
  have above := rounded.above
  have order : magnitude (bits - 1) ≤ magnitude bits :=
    magnitude_strictMono.monotone (Nat.sub_le _ _)
  refine ⟨?_, by linarith, ?_⟩
  · rcases rounded.below positive with below | reached <;> linarith
  · rintro (tie | tie)
    · rcases rounded.below positive with below | reached
      · apply even
        rw [abs_of_nonneg] <;> linarith
      · have same : magnitude (bits - 1) = magnitude bits := by linarith
        have same := magnitude_strictMono.injective same
        omega
    · apply even
      rw [abs_sub_comm, abs_of_nonneg] <;> linarith

/-- A number with another magnitude is no nearer, and as near only if the bits are even. -/
theorem RoundsTo.nearer {t : ℚ} (rounds : RoundsTo q bits)
    (other : t ≤ magnitude (bits - 1) ∨ magnitude (bits + 1) ≤ t) :
    |magnitude bits - q| ≤ |t - q| ∧
      (|magnitude bits - q| = |t - q| → t = magnitude bits ∨ bits % 2 = 0) := by
  have low := rounds.low
  have high := rounds.high
  have below : magnitude (bits - 1) ≤ magnitude bits :=
    magnitude_strictMono.monotone (Nat.sub_le _ _)
  have above : magnitude bits ≤ magnitude (bits + 1) :=
    magnitude_strictMono.monotone (Nat.le_succ _)
  rcases other with left | right
  · rw [abs_of_nonpos (by linarith : t - q ≤ 0)]
    rcases le_total (magnitude bits) q with reached | passed
    · rw [abs_of_nonpos (by linarith)]
      exact ⟨by linarith, fun tie => .inl (by linarith)⟩
    · rw [abs_of_nonneg (by linarith)]
      exact ⟨by linarith, fun tie => .inr (rounds.even (.inl (by linarith)))⟩
  · rw [abs_of_nonneg (by linarith : 0 ≤ t - q)]
    rcases le_total (magnitude bits) q with reached | passed
    · rw [abs_of_nonpos (by linarith)]
      exact ⟨by linarith, fun tie => .inr (rounds.even (.inr (by linarith)))⟩
    · rw [abs_of_nonneg (by linarith)]
      exact ⟨by linarith, fun tie => .inl (by linarith)⟩

end RoundsTo

theorem bitsOfQuotient_lt (num den : ℕ) : bitsOfQuotient num den < signPlace :=
  Nat.lt_of_le_of_lt (Nat.min_le_left _ _) (by decide : infinityBits < signPlace)

/-- The bits of a quotient are those that it rounds to. -/
theorem bitsOfQuotient_eq_iff {num den bits : ℕ} (some_num : 0 < num) (some_den : 0 < den)
    (finite : bits < infinityBits) :
    bitsOfQuotient num den = bits ↔ RoundsTo (num / den) bits := by
  obtain ⟨unbounded, s, n, same, rounded⟩ := bitsOfQuotient_rounded some_num some_den
  have rounds := rounded.roundsTo (by positivity)
  rw [same]
  constructor
  · intro same
    obtain rfl : unbounded = bits := by omega
    exact rounds
  · intro other
    rw [rounds.unique other, min_eq_right finite.le]

/-! ## Nearest numbers -/

/-- No number is nearer to `q`, and where another one is as near the significand is even. -/
structure IsNearest (x : Binary64) (q : ℚ) : Prop where
  finite : x.IsFinite
  nearest : ∀ y : Binary64, y.IsFinite → |x.value - q| ≤ |y.value - q|
  even : ∀ y : Binary64, y.IsFinite → y.value ≠ x.value → |x.value - q| = |y.value - q| →
    x.significand % 2 = 0

/-- A number without its sign has the magnitude, or one of a neighbour is between the two. -/
theorem value_cases (negative : Bool) (y : Binary64) (bits : ℕ) :
    signOf negative * y.value = magnitude bits ∨ signOf negative * y.value ≤ magnitude (bits - 1) ∨
      magnitude (bits + 1) ≤ signOf negative * y.value := by
  rw [value_eq, ← mul_assoc]
  generalize y.bits.toNat % signPlace = other
  by_cases same : negative = y.isNegative
  · rw [same, signOf_mul_self, one_mul]
    rcases Nat.lt_trichotomy other bits with less | rfl | more
    · exact .inr (.inl (magnitude_strictMono.monotone (by omega)))
    · exact .inl rfl
    · exact .inr (.inr (magnitude_strictMono.monotone more))
  · have opposite : signOf negative * signOf y.isNegative = -1 := by
      cases negative <;> cases sign : y.isNegative <;> simp_all [signOf]
    rw [opposite, neg_one_mul]
    exact .inr (.inl ((neg_nonpos.2 (magnitude_nonneg other)).trans (magnitude_nonneg _)))

theorem abs_sub_signOf_mul (negative : Bool) (a q : ℚ) :
    |a - signOf negative * q| = |signOf negative * a - q| := by
  rw [← abs_signOf_mul negative (a - _), mul_sub, ← mul_assoc, signOf_mul_self, one_mul]

/-- What a quotient rounds to is nearest with either sign, also among numbers of the other sign. -/
theorem RoundsTo.isNearest {q : ℚ} {bits : ℕ} (rounds : RoundsTo q bits)
    (finite : bits < infinityBits) (negative : Bool) :
    (ofParts negative bits).IsNearest (signOf negative * q) := by
  have bound : bits < signPlace := Nat.lt_trans finite (by decide)
  have unsigned : signOf negative * (ofParts negative bits).value = magnitude bits := by
    rw [value_ofParts bound, ← mul_assoc, signOf_mul_self, one_mul]
  constructor
  · exact isFinite_ofParts finite
  · intro y _
    rw [abs_sub_signOf_mul, abs_sub_signOf_mul, unsigned]
    rcases value_cases negative y bits with same | other
    · rw [same]
    · exact (rounds.nearer other).1
  · intro y _ different tie
    rw [significand_mod_two, magnitude_ofParts bound]
    have different : signOf negative * y.value ≠ magnitude bits := by
      intro same
      rw [← unsigned] at same
      exact different (mul_left_cancel₀ (signOf_ne_zero negative) same)
    rw [abs_sub_signOf_mul, abs_sub_signOf_mul, unsigned] at tie
    rcases value_cases negative y bits with same | other
    · exact absurd same different
    · exact ((rounds.nearer other).2 tie).resolve_left different

theorem RoundsTo.finite {q : ℚ} {bits : ℕ} (rounds : RoundsTo q bits) (small : q < 2 ^ (1023 : ℤ)) :
    bits < infinityBits := by
  apply magnitude_strictMono.lt_iff_lt.1
  calc magnitude bits ≤ magnitude (bits - 1) + magnitude bits :=
        le_add_of_nonneg_left (magnitude_nonneg _)
    _ ≤ 2 * q := rounds.low
    _ < 2 * 2 ^ (1023 : ℤ) := by gcongr
    _ = 2 ^ (1024 : ℤ) := (two_zpow_succ 1023).symm
    _ = magnitude infinityBits := magnitude_infinityBits.symm

/-- The quotient may be as small as it likes, but not as great as the greatest number. -/
theorem isNearest_bitsOfQuotient {num den : ℕ} (some_num : 0 < num) (some_den : 0 < den)
    (small : (num : ℚ) / den < 2 ^ 1023) (negative : Bool) :
    (ofParts negative (bitsOfQuotient num den)).IsNearest (signOf negative * (num / den)) := by
  obtain ⟨bits, s, n, same, rounded⟩ := bitsOfQuotient_rounded some_num some_den
  have rounds := rounded.roundsTo (by positivity)
  have finite := rounds.finite small
  rw [same, min_eq_right finite.le]
  exact rounds.isNearest finite negative

end HostBridge.Binary64
