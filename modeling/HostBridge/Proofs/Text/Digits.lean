import HostBridge.Native.Name
import Mathlib.Algebra.Group.Nat.Defs

/-!
# Numbers in decimal digits

The text of a number consists of digits, from which the number can be read again, and zeros behind
digits multiply by powers of ten.
-/

namespace HostBridge

theorem isDigit_toDigits {n : Nat} : ∀ c ∈ Nat.toDigits 10 n, c.isDigit = true :=
  fun _ mem => Nat.isDigit_of_mem_toDigits (by decide) (by decide) mem

/-- Only zero begins with a zero. -/
theorem head?_toDigits {n : Nat} (zero : (Nat.toDigits 10 n).head? = some '0') : n = 0 := by
  induction n using Nat.strongRecOn with
  | ind n ih =>
    rw [Nat.toDigits_eq_if (by decide)] at zero
    split at zero
    · rw [List.head?_cons, Option.some_inj] at zero
      exact Nat.digitChar_eq_zero.1 zero
    · next large =>
      obtain ⟨c, s, digits⟩ := List.exists_cons_of_ne_nil (@Nat.toDigits_ne_nil (n / 10) 10)
      rw [digits, List.cons_append, List.head?_cons] at zero
      have front := ih (n / 10) (by omega) (by rw [digits, List.head?_cons, zero])
      omega

/-- A natural number is written in decimal digits without leading zeros. -/
theorem toList_toString (n : Nat) : (toString n).toList = Nat.toDigits 10 n := by
  rw [Nat.toString_eq_repr, Nat.toList_repr]

theorem toString_injective {m n : Nat} (same : toString m = toString n) : m = n := by
  have digits : Nat.toDigits 10 m = Nat.toDigits 10 n := by
    rw [← toList_toString, ← toList_toString, same]
  rw [← Nat.ofDigitChars_toDigits (by decide : 1 < 10) (by decide) (n := m), digits,
    Nat.ofDigitChars_toDigits (by decide) (by decide)]

/-- A word with a letter in it is no number. -/
theorem ne_toString {word : String} {c : Char} (mem : c ∈ word.toList) (letter : c.isDigit = false)
    (n : Nat) : word ≠ toString n := by
  rintro rfl
  rw [toList_toString] at mem
  rw [isDigit_toDigits c mem] at letter
  cases letter

/-- An integer is written as its absolute value, behind a sign if it is negative. -/
theorem toList_toString_int (z : Int) : (toString z).toList =
    if z < 0 then '-' :: Nat.toDigits 10 z.natAbs else Nat.toDigits 10 z.natAbs := by
  cases z with
  | ofNat n =>
    have same : toString (Int.ofNat n) = toString n := rfl
    rw [same, toList_toString, if_neg (by simp)]
    rfl
  | negSucc n =>
    have same : toString (Int.negSucc n) = "-" ++ toString (n + 1) := rfl
    rw [same, String.toList_append, toList_toString, if_pos (Int.negSucc_lt_zero n)]
    rfl

theorem isIdentifierRest_of_isDigit {c : Char} (digit : c.isDigit = true) :
    isIdentifierRest c = true := by
  unfold isIdentifierRest Char.isAlphanum
  rw [digit, Bool.or_true, Bool.true_or]

theorem isDigit_replicate {k : Nat} : ∀ c ∈ List.replicate k '0', c.isDigit = true := by
  intro c mem
  rw [(List.mem_replicate.1 mem).2]
  rfl

/-- Zeros behind a number multiply it by a power of ten. -/
theorem ofDigitChars_zeros (k n : Nat) :
    Nat.ofDigitChars 10 (List.replicate k '0') n = n * 10 ^ k := by
  induction k generalizing n with
  | zero => simp
  | succ k ih =>
    rw [List.replicate_succ, Nat.ofDigitChars_cons, ih, Nat.pow_succ', Nat.sub_self, Nat.add_zero,
      Nat.mul_comm 10 n, Nat.mul_assoc]

end HostBridge
