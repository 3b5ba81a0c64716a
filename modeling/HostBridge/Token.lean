/-!
# Identity tokens

A token is a 128-bit number. It is written as 32 hexadecimal digits in five groups of
8, 4, 4, 4 and 12, and read from that form, from the same form in braces or after
`urn:uuid:`, or from the 32 digits alone, with letters of either case.
-/

namespace HostBridge

/-- An identity: two tokens name the same thing exactly when they are equal. -/
structure Token where
  value : BitVec 128
  deriving DecidableEq, Repr

namespace Token

/-- The token of the number zero. -/
def nil : Token := ⟨0⟩

def isNil (t : Token) : Bool :=
  t.value == 0

/-- The hexadecimal digits, from the most significant one. -/
def digits (t : Token) : List Char :=
  (List.range 32).map fun i => Nat.digitChar (t.value.toNat / Nat.pow 16 (31 - i) % 16)

/-- The 32 digits without groups. -/
def simple (t : Token) : String :=
  String.ofList t.digits

/-- Cuts a list into pieces of the given lengths. -/
def pieces : List Nat → List Char → List (List Char)
  | [], _ => []
  | n :: ns, s => s.take n :: pieces ns (s.drop n)

/-- The lengths of the groups of digits. -/
def groupLengths : List Nat := [8, 4, 4, 4, 12]

/-- The digits in groups with hyphens between them. -/
def toText (t : Token) : String :=
  String.ofList (['-'].intercalate (pieces groupLengths t.digits))

/-- The value of a hexadecimal digit. -/
def digitValue? (c : Char) : Option Nat :=
  if '0' ≤ c ∧ c ≤ '9' then some (c.toNat - '0'.toNat)
  else if 'a' ≤ c ∧ c ≤ 'f' then some (c.toNat - 'a'.toNat + 10)
  else if 'A' ≤ c ∧ c ≤ 'F' then some (c.toNat - 'A'.toNat + 10)
  else none

/-- The number written by hexadecimal digits. -/
def number? (s : List Char) : Option Nat :=
  s.foldlM (fun n c => (digitValue? c).map (16 * n + ·)) 0

/-- Thirty-two digits without groups. -/
def ofSimple? (s : List Char) : Option Token :=
  if s.length = 32 then (number? s).map fun n => ⟨BitVec.ofNat 128 n⟩ else none

/-- Takes the hyphens out of a grouped text, if they stand where groups end. -/
def ungroup? : List Nat → List Char → Option (List Char)
  | [], s => if s = [] then some [] else none
  | [n], s => if s.length = n then some s else none
  | n :: ns, s =>
    match s.drop n with
    | '-' :: rest => (ungroup? ns rest).map (s.take n ++ ·)
    | _ => none

/-- Digits in groups. -/
def ofGrouped? (s : List Char) : Option Token := do
  ofSimple? (← ungroup? groupLengths s)

/-- The text before the groups in a uniform resource name. -/
def urn : List Char := "urn:uuid:".toList

/-- Reads a token. The length of the text decides between the four written forms. -/
def ofText? (text : String) : Option Token :=
  let s := text.toList
  if s.length = 32 then ofSimple? s
  else if s.length = 36 then ofGrouped? s
  else if s.length = 38 then
    if s.head? = some '{' ∧ s.getLast? = some '}' then ofGrouped? ((s.drop 1).take 36) else none
  else if s.length = 45 then
    if (s.take 9).map Char.toLower = urn then ofGrouped? (s.drop 9) else none
  else none

/-- Tokens are ordered as numbers, which is also the order of their texts. -/
def compare (a b : Token) : Ordering :=
  Ord.compare a.value.toNat b.value.toNat

end Token

end HostBridge
