import HostBridge.Yaml.Folding
import HostBridge.Yaml.Plain

/-!
# Quoted scalars

A scalar in single quotes has one escape, two quotes for one. A scalar in double quotes has
many, which begin with a backslash. Both may run over several lines, which are folded; what
an escape stands for is not. A line after the first must be indented enough to belong to the
scalar, and none may be the mark of a document.
-/

namespace HostBridge.Yaml

/-- The rest of a single-quoted scalar. -/
def singleQuoted : List Char → Option (List Piece × List Char)
  | [] => none
  | '\'' :: '\'' :: rest => (singleQuoted rest).map fun (s, left) => (.solid '\'' :: s, left)
  | '\'' :: rest => some ([], rest)
  | c :: rest => (singleQuoted rest).map fun (s, left) => (.ofChar c :: s, left)

/-- The character of that number. -/
def charOf? (n : Nat) : Option Char :=
  if n.isValidChar then some (Char.ofNat n) else none

/-- The character with a number written by hexadecimal digits. -/
def charOfHex? (digits : List Char) : Option Char :=
  (natural? 16 digits).bind charOf?

/-- The character that a pair of surrogates stands for, each written by four hexadecimal
digits. -/
def charOfPair? (high low : List Char) : Option Char := do
  let h ← natural? 16 high
  let l ← natural? 16 low
  if 0xD800 ≤ h ∧ h < 0xDC00 ∧ 0xDC00 ≤ l ∧ l < 0xE000 then
    charOf? (0x10000 + (h - 0xD800) * 0x400 + (l - 0xDC00))
  else none

/-- The character that an escape of one letter stands for. -/
def simpleEscape? (c : Char) : Option Char :=
  [('n', '\n'), ('t', '\t'), ('"', '"'), ('\\', '\\'), ('/', '/'), ('r', '\r'), ('0', '\x00'),
    ('a', '\x07'), ('b', '\x08'), ('e', '\x1b'), ('f', '\x0c'), ('v', '\x0b'), (' ', ' '),
    ('\t', '\t'), ('N', '\u0085'), ('_', '\u00a0'), ('L', '\u2028'), ('P', '\u2029')].lookup c

/-- The rest of a double-quoted scalar. -/
def doubleQuoted : List Char → Option (List Piece × List Char)
  | [] => none
  | '"' :: rest => some ([], rest)
  | '\\' :: '\n' :: rest => (doubleQuoted rest).map fun (s, left) => (.joint :: s, left)
  | '\\' :: 'x' :: a :: b :: rest => do
    let c ← charOfHex? [a, b]
    let (s, left) ← doubleQuoted rest
    some (.solid c :: s, left)
  | '\\' :: 'u' :: a :: b :: c :: d :: rest =>
    match charOfHex? [a, b, c, d], rest with
    | some c, rest => (doubleQuoted rest).map fun (s, left) => (.solid c :: s, left)
    | none, '\\' :: 'u' :: e :: f :: g :: h :: rest => do
      let c ← charOfPair? [a, b, c, d] [e, f, g, h]
      let (s, left) ← doubleQuoted rest
      some (.solid c :: s, left)
    | none, _ => none
  | '\\' :: 'U' :: a :: b :: c :: d :: e :: f :: g :: h :: rest => do
    let c ← charOfHex? [a, b, c, d, e, f, g, h]
    let (s, left) ← doubleQuoted rest
    some (.solid c :: s, left)
  | '\\' :: c :: rest => do
    let c ← simpleEscape? c
    let (s, left) ← doubleQuoted rest
    some (.solid c :: s, left)
  | c :: rest => (doubleQuoted rest).map fun (s, left) => (.ofChar c :: s, left)

/-- A later line of a quoted scalar: it holds blanks only, or it is indented by `least` and
no mark. -/
def belongs (least : Nat) (line : List Char) : Bool :=
  let indent := (line.takeWhile (· == ' ')).length
  line.all isGap || (least ≤ indent && !(Cursor.start line).isBoundary)

/-- The lines behind the first one. -/
def laterLines : List Char → List (List Char)
  | [] => []
  | '\n' :: rest => rest.takeWhile (· != '\n') :: laterLines rest
  | _ :: rest => laterLines rest

/-- The text of a scalar that begins with a quote, and the place behind it. -/
def quoted? (least : Nat) (k : Cursor) : Option (List Char × Cursor) := do
  let (pieces, left) ← match k.rest with
    | '"' :: rest => doubleQuoted rest
    | '\'' :: rest => singleQuoted rest
    | _ => none
  let behind := k.before left
  if (laterLines (k.upTo behind)).all (belongs least) then some (fold pieces, behind) else none

end HostBridge.Yaml
