import HostBridge.Yaml.Cursor

/-!
# Folding lines

A scalar outside literal blocks may run over several lines. Where a line ends, the blanks
around the end do not count: a single line feed becomes a space, and of several in a row
all but the first are kept.

`fold` works on `Piece`s, which tell the characters that stand for themselves from the blanks
and line feeds that are subject to folding.
-/

namespace HostBridge.Yaml

/-- A part of a scalar. -/
inductive Piece where
  /-- A character that counts wherever it stands. -/
  | solid (c : Char)
  /-- A space or a tab that does not count next to the end of a line. -/
  | blank (c : Char)
  | feed
  /-- An escaped line feed, which joins two lines without a space. -/
  | joint
  deriving DecidableEq, Repr

namespace Piece

/-- The piece that an unescaped character is. -/
def ofChar (c : Char) : Piece :=
  if isBreak c then feed else if isSpace c then blank c else solid c

def isBlank : Piece → Bool
  | blank _ => true
  | _ => false

/-- Nothing but blanks is left of the line. -/
def endLine (pieces : List Piece) : Bool :=
  (pieces.dropWhile isBlank).head? == some feed

end Piece

/-- The characters between two lines: `joiner` if no empty line is between them, and otherwise
a line feed for each empty line. -/
def lineGap (joiner : List Char) (empty : Nat) : List Char :=
  if empty = 0 then joiner else List.replicate empty '\n'

mutual

/-- The text of pieces that go on within a line. -/
def fold : List Piece → List Char
  | [] => []
  | .solid c :: rest => c :: fold rest
  | .blank c :: rest => if Piece.endLine rest then fold rest else c :: fold rest
  | .feed :: rest => foldLine [' '] 0 rest
  | .joint :: rest => foldLine [] 0 rest

/-- The text of pieces behind the end of a line, `empty` lines without content having passed
since. -/
def foldLine (joiner : List Char) (empty : Nat) : List Piece → List Char
  | [] => lineGap joiner empty
  | .feed :: rest => foldLine joiner (empty + 1) rest
  | .blank _ :: rest => foldLine joiner empty rest
  | .joint :: rest => lineGap joiner empty ++ foldLine [] 0 rest
  | .solid c :: rest => lineGap joiner empty ++ c :: fold rest

end

end HostBridge.Yaml
