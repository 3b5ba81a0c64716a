import HostBridge.Native.Literal
import HostBridge.Native.Name
import HostBridge.Proofs.Binary64.Text
import Mathlib.Data.List.SplitBy

/-!
# What the constants in code mean

The code of an integer is an expression of 64-bit integers, and computing it never leaves their range
(`CExpression.evaluate?_int`). The code of a finite number is its text, which is read as that number.
So literals with the same code are the same, up to what a NaN holds (`Literal.toCode_faithful`).
-/

namespace HostBridge

/-- An expression of 64-bit integers. -/
inductive CExpression where
  | constant (n : Nat)
  /-- `INT64_MAX` -/
  | greatest
  | negate (e : CExpression)
  | minus (a b : CExpression)
  deriving DecidableEq

namespace CExpression

/-! ## Values -/

/-- A result, which must be in the range of the type. -/
def inRange? (n : Int) : Option Int :=
  if Int64.minValue.toInt ≤ n ∧ n ≤ Int64.maxValue.toInt then some n else none

/-- The value of an expression in which all constants and results are in range. -/
def value? : CExpression → Option Int
  | constant n => inRange? n
  | greatest => inRange? (2 ^ 63 - 1)
  | negate e => do inRange? (-(← e.value?))
  | minus a b => do inRange? ((← a.value?) - (← b.value?))

/-! ## Reading -/

/-- The characters belong to one token: to a word, or to a decrement. -/
def joins (c d : Char) : Bool :=
  isIdentifierRest c && isIdentifierRest d || c == '-' && d == '-'

/-- The tokens of a text, which spaces may stand between. -/
def tokens (s : List Char) : List (List Char) :=
  (s.splitBy joins).filter (· ≠ [' '])

/-- A constant by its token. One with a zero in front would be octal. -/
def ofWord? (word : List Char) : Option CExpression :=
  if word = "INT64_MAX".toList then some greatest
  else if word.head? = some '0' ∧ word ≠ ['0'] then none
  else (Yaml.natural? 10 word).map constant

/-- An operand that is yet to come: what it is subtracted from and the minus signs before it. -/
structure Awaited where
  minuend : Option CExpression := none
  signs : Nat := 0

/-- The expression up to an operand, once that is there. -/
def Awaited.fill (a : Awaited) (e : CExpression) : CExpression :=
  let operand := a.signs.repeat negate e
  match a.minuend with
  | none => operand
  | some m => minus m operand

/-- What the reader is waiting for. -/
inductive Stage where
  | operand (a : Awaited)
  /-- The parenthesis of `INT64_C`. -/
  | argument (a : Awaited)
  /-- An operator or the end. -/
  | operator (e : CExpression)

/-- Reads one token. Of each parenthesis that is open, it is known what waits for its content. -/
def read : List Awaited × Stage → List Char → Option (List Awaited × Stage)
  | (outer, .operand a), word =>
    if word = ['-'] then some (outer, .operand { a with signs := a.signs + 1 })
    else if word = ['('] then some (a :: outer, .operand {})
    else if word = "INT64_C".toList then some (outer, .argument a)
    else (ofWord? word).map fun e => (outer, .operator (a.fill e))
  | (outer, .argument a), word => if word = ['('] then some (a :: outer, .operand {}) else none
  | (a :: outer, .operator e), word =>
    if word = ['-'] then some (a :: outer, .operand { minuend := some e })
    else if word = [')'] then some (outer, .operator (a.fill e))
    else none
  | ([], .operator e), word =>
    if word = ['-'] then some ([], .operand { minuend := some e }) else none

/-- The expression that a text is. -/
def ofChars? (s : List Char) : Option CExpression :=
  match (tokens s).foldlM read ([], .operand {}) with
  | some ([], .operator e) => some e
  | _ => none

/-- The value of the expression that a text is. -/
def evaluate? (text : String) : Option Int := do
  (← ofChars? text.toList).value?

/-! ## Integers -/

section Integers

variable {n : Nat}

theorem splitBy_digits {s : List Char} (digits : ∀ c ∈ s, c.isDigit = true) (ne : s ≠ []) :
    s.splitBy joins = [s] := by
  refine List.splitBy_of_isChain ne (List.pairwise_of_forall_mem_list fun c mem d mem' => ?_).isChain
  unfold joins
  rw [isIdentifierRest_of_isDigit (digits c mem), isIdentifierRest_of_isDigit (digits d mem')]
  rfl

/-- Digits are a token between characters that do not belong to a word. -/
theorem tokens_digits {front digits : List Char} {c : Char} (last : front.getLast? = some c)
    (closes : isIdentifierRest c = false) (all : ∀ d ∈ digits, d.isDigit = true) (ne : digits ≠ []) :
    tokens (front ++ (digits ++ [')'])) = tokens front ++ [digits, [')']] := by
  have left : ∀ x ∈ front.getLast?, ∀ y ∈ (digits ++ [')']).head?, joins x y = false := by
    intro x mem y head
    rw [last] at mem
    cases mem
    rw [List.head?_append_of_ne_nil _ ne] at head
    have digit := all y (List.mem_of_head? head)
    have other : y ≠ '-' := by
      rintro rfl
      exact absurd digit (by decide)
    unfold joins
    rw [closes, beq_false_of_ne other]
    simp
  have right : ∀ x ∈ digits.getLast?, ∀ y ∈ [')'].head?, joins x y = false := by
    intro x mem y head
    cases head
    unfold joins
    simp [isIdentifierRest]
  have word : digits ≠ [' '] := by
    rintro rfl
    exact absurd (all ' ' List.mem_cons_self) (by decide)
  have close : [')'].splitBy joins = [[')']] := rfl
  unfold tokens
  rw [List.splitBy_append left, List.splitBy_append right, splitBy_digits all ne, close,
    List.filter_append]
  simp [word]

theorem ofWord?_toDigits (n : Nat) : ofWord? (Nat.toDigits 10 n) = some (constant n) := by
  have letters : Nat.toDigits 10 n ≠ "INT64_MAX".toList := by
    intro same
    have mem : 'I' ∈ Nat.toDigits 10 n := by simp [same]
    exact absurd (isDigit_toDigits 'I' mem) (by decide)
  have octal : ¬ ((Nat.toDigits 10 n).head? = some '0' ∧ Nat.toDigits 10 n ≠ ['0']) := by
    rintro ⟨zero, more⟩
    rw [head?_toDigits zero] at more
    exact more (Nat.toDigits_zero 10)
  unfold ofWord?
  rw [if_neg letters, if_neg octal, Yaml.natural?_toDigits, Option.map_some]

/-- Digits are read as a constant, and a sign before them as a negation. -/
theorem read_digits (n : Nat) (outer : List Awaited) (a : Awaited) :
    read (outer, .operand a) (Nat.toDigits 10 n) = some (outer, .operator (a.fill (constant n))) := by
  have other {word : List Char} {c : Char} (mem : c ∈ word) (none : c.isDigit = false) :
      Nat.toDigits 10 n ≠ word := by
    rintro rfl
    rw [isDigit_toDigits c mem] at none
    cases none
  unfold read
  dsimp only
  rw [if_neg (other (c := '-') (by decide) rfl), if_neg (other (c := '(') (by decide) rfl),
    if_neg (other (c := 'I') (by decide) rfl), ofWord?_toDigits, Option.map_some]

/-- Digits in the parentheses of `INT64_C` are a constant. -/
theorem ofChars?_argument (n : Nat) :
    ofChars? ("INT64_C(".toList ++ (Nat.toDigits 10 n ++ [')'])) = some (constant n) := by
  have front : tokens "INT64_C(".toList = ["INT64_C".toList, ['(']] := by decide
  have close : isIdentifierRest '(' = false := rfl
  have start : ["INT64_C".toList, ['(']].foldlM read ([], .operand {}) = some ([{}], .operand {}) := rfl
  unfold ofChars?
  rw [tokens_digits rfl close isDigit_toDigits Nat.toDigits_ne_nil, front, List.foldlM_append, start,
    Option.bind_eq_bind, Option.bind_some, List.foldlM_cons, read_digits]
  rfl

theorem ofChars?_negative (n : Nat) :
    ofChars? ("INT64_C(-".toList ++ (Nat.toDigits 10 n ++ [')'])) = some (negate (constant n)) := by
  have front : tokens "INT64_C(-".toList = ["INT64_C".toList, ['('], ['-']] := by decide
  have close : isIdentifierRest '-' = false := rfl
  have start : ["INT64_C".toList, ['('], ['-']].foldlM read ([], .operand {}) =
      some ([{}], .operand { signs := 1 }) := rfl
  unfold ofChars?
  rw [tokens_digits rfl close isDigit_toDigits Nat.toDigits_ne_nil, front, List.foldlM_append, start,
    Option.bind_eq_bind, Option.bind_some, List.foldlM_cons, read_digits]
  rfl

theorem inRange?_of_bounds {n : Int} (least : -2 ^ 63 ≤ n) (most : n < 2 ^ 63) :
    inRange? n = some n := by
  have ends : Int64.minValue.toInt = -2 ^ 63 ∧ Int64.maxValue.toInt = 2 ^ 63 - 1 := by decide
  unfold inRange?
  rw [if_pos (by omega)]

theorem value?_constant (small : n < 2 ^ 63) :
    (constant n).value? = some (n : Int) ∧ (negate (constant n)).value? = some (-n : Int) := by
  have constant : (CExpression.constant n).value? = some (n : Int) :=
    inRange?_of_bounds (by omega) (by omega)
  refine ⟨constant, ?_⟩
  rw [value?, constant]
  exact inRange?_of_bounds (by omega) (by omega)

theorem toList_toCode_int {v : Int64} (other : v ≠ Int64.minValue) :
    (Literal.int v).toCode.toList = "INT64_C(".toList ++ ((toString v.toInt).toList ++ [')']) := by
  have code : (Literal.int v).toCode = "INT64_C(" ++ toString v.toInt ++ ")" := if_neg other
  simp [code]

/-- The code of an integer has the integer as its value. -/
theorem evaluate?_int (v : Int64) : evaluate? (Literal.int v).toCode = some v.toInt := by
  by_cases least : v = Int64.minValue
  · subst least
    decide
  · have above : v.toInt ≠ -2 ^ 63 := fun same => least (Int64.toInt_inj.1 same)
    have small : v.toInt.natAbs < 2 ^ 63 := by
      have := v.le_toInt
      have := v.toInt_lt
      omega
    have values := value?_constant small
    unfold evaluate?
    rw [toList_toCode_int least, toList_toString_int]
    by_cases below : v.toInt < 0
    · have sign : "INT64_C(".toList ++ ('-' :: Nat.toDigits 10 v.toInt.natAbs ++ [')']) =
          "INT64_C(-".toList ++ (Nat.toDigits 10 v.toInt.natAbs ++ [')']) := rfl
      have same : (-v.toInt.natAbs : Int) = v.toInt := by omega
      rw [if_pos below, sign, ofChars?_negative, Option.bind_eq_bind, Option.bind_some, values.2, same]
    · have same : (v.toInt.natAbs : Int) = v.toInt := by omega
      rw [if_neg below, ofChars?_argument, Option.bind_eq_bind, Option.bind_some, values.1, same]

/-- A constant of the least integer would be out of range before the sign is. -/
example : evaluate? "INT64_C(-9223372036854775808)" = none := by decide

end Integers

end CExpression

/-! ## Numbers -/

namespace Binary64

/-- The number that a text is. Infinity below zero is written with an operator. -/
def ofCode? (text : String) : Option Binary64 :=
  if text = "(-INFINITY)" then some (infinity true) else Yaml.real? text.toList

theorem eq_infinity {x : Binary64} (infinite : x.isInfinite = true) :
    x = infinity x.isNegative := by
  unfold isInfinite at infinite
  obtain ⟨field, fraction⟩ := Bool.and_eq_true_iff.1 infinite
  have bits : x.bits.toNat % signPlace = infinityBits := by
    rw [bits_eq, eq_of_beq field, eq_of_beq fraction]
    rfl
  have same := x.ofParts_eq_self
  rw [bits] at same
  exact same.symm

end Binary64

namespace Literal

/-- The same type and the same value. Numbers are told apart by their bits, but NaNs are not. -/
def Same : Literal → Literal → Prop
  | int v, int w => v = w
  | float x, float y => x = y ∨ x.isNaN ∧ y.isNaN
  | bool a, bool b => a = b
  | _, _ => False

theorem ofCode?_float (x : Binary64) :
    ∃ y, Binary64.ofCode? (float x).toCode = some y ∧ (float x).Same (float y) := by
  have code : (float x).toCode = floatCode x := rfl
  rw [code]
  unfold floatCode
  split
  · next nan => exact ⟨.nan, by decide, .inr ⟨nan, by decide⟩⟩
  split
  · next infinite =>
    have same := Binary64.eq_infinity infinite
    split
    · next negative =>
      rw [negative] at same
      exact ⟨x, by rw [same]; decide, .inl rfl⟩
    · next positive =>
      rw [eq_false_of_ne_true positive] at same
      exact ⟨x, by rw [same]; decide, .inl rfl⟩
  · next number bounded =>
    have finite := Binary64.isFinite_iff.2
      ⟨eq_false_of_ne_true number, eq_false_of_ne_true bounded⟩
    have read := Binary64.real?_toText finite
    refine ⟨x, ?_, .inl rfl⟩
    unfold Binary64.ofCode?
    rw [if_neg, read]
    intro same
    have unread : Yaml.real? "(-INFINITY)".toList = none := by decide
    rw [same, unread] at read
    cases read

/-- What begins as the code of an integer is no number. -/
theorem real?_eq_none (rest : List Char) : Yaml.real? ('I' :: 'N' :: 'T' :: rest) = none := by
  have sign : Yaml.splitSign ('I' :: 'N' :: 'T' :: rest) = (false, 'I' :: 'N' :: 'T' :: rest) := rfl
  have other {word : String} (third : word.toList[2]? ≠ some 't') :
      String.ofList (('I' :: 'N' :: 'T' :: rest).map Char.toLower) ≠ word := by
    rintro rfl
    exact third (by rw [String.toList_ofList]; rfl)
  unfold Yaml.real?
  rw [sign]
  dsimp only
  rw [if_neg (other (by decide)), if_neg (not_or.2 ⟨other (by decide), other (by decide)⟩),
    Yaml.decimal?_of_other (by decide) (by decide)]
  rfl

theorem ofCode?_int (v : Int64) : Binary64.ofCode? (int v).toCode = none := by
  by_cases least : v = Int64.minValue
  · subst least
    decide
  · have text := CExpression.toList_toCode_int least
    have other : (int v).toCode ≠ "(-INFINITY)" := by
      intro same
      rw [same] at text
      cases text
    unfold Binary64.ofCode?
    rw [if_neg other, text]
    exact real?_eq_none _

/-- The literal that a text is the code of. -/
def ofCode? (text : String) : Option Literal :=
  match Binary64.ofCode? text, CExpression.evaluate? text with
  | some x, _ => some (float x)
  | none, some n => some (int (Int64.ofInt n))
  | none, none =>
    if text = "true" then some (bool true)
    else if text = "false" then some (bool false)
    else none

/-- Code is read as the literal that it was written for. -/
theorem ofCode?_toCode (a : Literal) : ∃ b, ofCode? a.toCode = some b ∧ a.Same b := by
  unfold ofCode?
  cases a with
  | int v =>
    refine ⟨int v, ?_, rfl⟩
    rw [ofCode?_int, CExpression.evaluate?_int]
    dsimp only
    rw [Int64.ofInt_toInt]
  | float x =>
    obtain ⟨y, read, same⟩ := ofCode?_float x
    refine ⟨float y, ?_, same⟩
    rw [read]
  | bool b => exact ⟨bool b, by cases b <;> decide, rfl⟩

/-- Literals that are the same as a third one are the same. Only for numbers this is more than
equality. -/
theorem Same.of_common {a b c : Literal} (left : a.Same c) (right : b.Same c) : a.Same b := by
  cases a <;> cases b <;> cases c <;>
    first | exact left.elim | exact right.elim | exact left.trans right.symm | skip
  rcases left with rfl | ⟨nan, nan'⟩ <;> rcases right with rfl | ⟨other, other'⟩
  · exact .inl rfl
  · exact .inr ⟨other', other⟩
  · exact .inr ⟨nan, nan'⟩
  · exact .inr ⟨nan, other⟩

theorem same_of_toCode {a b : Literal} (code : a.toCode = b.toCode) : a.Same b := by
  obtain ⟨c, read, same⟩ := ofCode?_toCode a
  obtain ⟨d, read', same'⟩ := ofCode?_toCode b
  rw [code, read'] at read
  cases read
  exact same.of_common same'

theorem Same.toCode_eq {a b : Literal} (same : a.Same b) : a.toCode = b.toCode := by
  cases a <;> cases b <;> try exact same.elim
  · exact congrArg _ (congrArg int same)
  · rcases same with rfl | ⟨nan, nan'⟩
    · rfl
    · exact (if_pos nan).trans (if_pos nan').symm
  · exact congrArg _ (congrArg bool same)

/-- The code of a literal says which literal it is: an integer by the value of the expression, a finite
number by a decimal that is read as the number, with no more digits than that takes. -/
theorem toCode_faithful :
    (∀ a b : Literal, a.toCode = b.toCode ↔ a.Same b) ∧
      (∀ v : Int64, CExpression.evaluate? (int v).toCode = some v.toInt) ∧
      ∀ x : Binary64, x.IsFinite → x.Written (float x).toCode := by
  refine ⟨fun a b => ⟨same_of_toCode, Same.toCode_eq⟩, CExpression.evaluate?_int, ?_⟩
  intro x finite
  have code : (float x).toCode = x.toText := by
    have special : (float x).toCode = floatCode x := rfl
    rw [special]
    unfold floatCode
    rw [finite.isNaN, finite.isInfinite, if_neg Bool.false_ne_true, if_neg Bool.false_ne_true]
  rw [code]
  exact Binary64.toText_written finite

/-- A tenth is no binary number, and yet it is one digit that is read as the number written so. -/
theorem tenth_toCode_faithful :
    (⟨0x3FB999999999999A⟩ : Binary64).IsFinite ∧
      (float ⟨0x3FB999999999999A⟩).toCode = "0.1" ∧
      Binary64.Written ⟨0x3FB999999999999A⟩ (float ⟨0x3FB999999999999A⟩).toCode :=
  ⟨by decide, by decide +kernel, toCode_faithful.2.2 _ (by decide)⟩

end Literal

end HostBridge
