import HostBridge.Binary64.Nearest

/-!
# Plain scalars

A scalar without quotes is read by its form: some words mean null or a truth value, some
forms are numbers, and everything else is text. A number is an integer of 64 bits if it is
written as one and fits, and the nearest binary64 number otherwise.

The writer is more careful than the reader: `looksTyped` holds of every text that might be
taken for something else, and a few more.
-/

namespace HostBridge.Yaml

/-- The value of a scalar. -/
inductive Value where
  | null
  | bool (value : Bool)
  | integer (value : Int)
  /-- A number with a point or an exponent, or an integer of more than 64 bits. -/
  | real (value : Binary64)
  | text (value : String)
  deriving DecidableEq, Repr

def nullWords : List String := ["", "~", "null", "Null", "NULL"]

def trueWords : List String := ["true", "True", "TRUE"]

def falseWords : List String := ["false", "False", "FALSE"]

def infinityWords : List String := [".inf", ".Inf", ".INF"]

def nanWords : List String := [".nan", ".NaN", ".NAN"]

def isSign (c : Char) : Bool :=
  c == '+' || c == '-'

/-- The value of a digit in a base of at most 16. -/
def digitIn? (base : Nat) (c : Char) : Option Nat :=
  let value :=
    if c.isDigit then some (c.toNat - '0'.toNat)
    else if 'a' ≤ c ∧ c ≤ 'f' then some (c.toNat - 'a'.toNat + 10)
    else if 'A' ≤ c ∧ c ≤ 'F' then some (c.toNat - 'A'.toNat + 10)
    else none
  value.filter (· < base)

/-- The number written by at least one digit, and by digits only. -/
def natural? (base : Nat) (s : List Char) : Option Nat :=
  if s = [] then none else s.foldlM (fun n c => (digitIn? base c).map (base * n + ·)) 0

/-- Splits the sign off a number: whether it is a minus, and the rest. -/
def splitSign : List Char → Bool × List Char
  | '-' :: s => (true, s)
  | '+' :: s => (false, s)
  | s => (false, s)

/-- The integer written by digits that a sign may stand before. -/
def signed? (base : Nat) (s : List Char) : Option Int :=
  let (negative, digits) := splitSign s
  (natural? base digits).map fun n => if negative then -Int.ofNat n else Int.ofNat n

/-- An integer: decimal, or hexadecimal or octal behind a mark. A sign stands next to the
digits, so behind the mark. -/
def integer? : List Char → Option Int
  | '0' :: 'x' :: s | '0' :: 'X' :: s => signed? 16 s
  | '0' :: 'o' :: s | '0' :: 'O' :: s => signed? 8 s
  | s => signed? 10 s

/-- The power of ten behind the digits of a number: nothing, or a signed integer. -/
def exponent? : List Char → Option Int
  | [] => some 0
  | e :: s =>
    if e == 'e' || e == 'E' then signed? 10 s else none

/-- A decimal without sign, `m · 10^e`: digits with or without a point among them or at one
of their ends, and perhaps a power of ten. -/
def decimal? (s : List Char) : Option (Nat × Int) := do
  let whole := s.takeWhile (·.isDigit)
  let (places, behind) := match s.dropWhile (·.isDigit) with
    | '.' :: rest => (rest.takeWhile (·.isDigit), rest.dropWhile (·.isDigit))
    | rest => ([], rest)
  let m ← natural? 10 (whole ++ places)
  let e ← exponent? behind
  some (m, e - places.length)

/-- A number that need not be an integer, in the usual notation or by name. Names are read
in either case and may have a sign. -/
def real? (s : List Char) : Option Binary64 :=
  let (negative, unsigned) := splitSign s
  let name := String.ofList (unsigned.map Char.toLower)
  if name = "nan" then some .nan
  else if name = "inf" ∨ name = "infinity" then some (.infinity negative)
  else (decimal? unsigned).map fun (m, e) => .ofDecimal negative m e

/-- Infinity with or without sign, or no number at all, as names with a point. -/
def isUnusualNumber (s : String) : Bool :=
  s ∈ infinityWords || s ∈ nanWords || s ∈ infinityWords.map ("+" ++ ·) ||
    s ∈ infinityWords.map ("-" ++ ·)

/-- The number that a name with a point stands for. -/
def pointedReal? (s : String) : Option Binary64 :=
  if s ∈ nanWords then some .nan
  else if isUnusualNumber s then some (.infinity (s.toList.head? == some '-'))
  else none

/-- The integers of 64 bits. -/
def isWordSized (n : Int) : Bool :=
  Int64.minValue.toInt ≤ n && n ≤ Int64.maxValue.toInt

/-- The number that a plain scalar is, if it is one. -/
def Value.ofNumber? (s : List Char) : Option Value :=
  match (integer? s).filter isWordSized with
  | some n => some (.integer n)
  | none => (real? s <|> pointedReal? (String.ofList s)).map .real

/-- What a plain scalar means. -/
def Value.ofPlain (s : List Char) : Value :=
  let word := String.ofList s
  if word ∈ nullWords then .null
  else if word ∈ trueWords then .bool true
  else if word ∈ falseWords then .bool false
  else (ofNumber? s).getD (.text word)

/-- A digit, or a point and a digit, comes first after any signs. -/
def startsNumber (s : List Char) : Bool :=
  match s.dropWhile isSign with
  | '.' :: c :: _ => c.isDigit
  | c :: _ => c.isDigit
  | [] => false

/-- The text might be read as null, a truth value or a number. -/
def looksTyped (s : List Char) : Bool :=
  let word := String.ofList s
  word ∈ nullWords || word ∈ trueWords || word ∈ falseWords || isUnusualNumber word ||
    startsNumber s

end HostBridge.Yaml
