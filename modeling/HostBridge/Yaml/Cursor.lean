import HostBridge.Text.LineEnding

/-!
# Places in a document

A `Cursor` is a place in a document: the characters from there on, and what a reader has to
know of those before it. Lines end at a line feed. A carriage return without one ends words
and comments as the end of a line does, but the columns are counted on behind it.

Between the parts of a document stand gaps: blanks, ends of lines and comments. `skipGap`
goes to the next place that belongs to none.
-/

namespace HostBridge.Yaml

/-- A space or a tab. -/
def isSpace (c : Char) : Bool :=
  c == ' ' || c == '\t'

/-- A line feed or a carriage return. -/
def isBreak (c : Char) : Bool :=
  c == '\n' || c == '\r'

def isGap (c : Char) : Bool :=
  isSpace c || isBreak c

/-- A mark of one character stands alone if a gap or nothing follows it. -/
def standsAlone (rest : List Char) : Bool :=
  rest.head?.all isGap

/-- How many characters belong to a gap: a comment in it begins where it may begin, behind a
blank or at the start of a line, and goes on to the end of the line. -/
def gapLength (inComment free : Bool) : List Char → Nat
  | [] => 0
  | c :: rest =>
    if isBreak c then gapLength false true rest + 1
    else if inComment then gapLength true true rest + 1
    else if isSpace c then gapLength false true rest + 1
    else if c == '#' && free then gapLength true true rest + 1
    else 0

structure Cursor where
  rest : List Char
  line : Nat
  column : Nat
  /-- The column behind the spaces with which the line begins. -/
  indent : Nat
  /-- A comment may begin here. -/
  free : Bool
  deriving DecidableEq, Repr

namespace Cursor

/-- The place where a document begins. A byte order mark before it takes up a column. -/
def start : List Char → Cursor
  | '\ufeff' :: rest => ⟨rest, 0, 1, 1, false⟩
  | rest => ⟨rest, 0, 0, 0, true⟩

/-- The place behind the next character. -/
def step (k : Cursor) : Cursor :=
  match k.rest with
  | [] => k
  | c :: rest =>
    if c = '\n' then ⟨rest, k.line + 1, 0, 0, true⟩
    else
      let column := k.column + 1
      let indents := c == '\r' || (c == ' ' && k.indent == k.column)
      ⟨rest, k.line, column, if indents then column else k.indent, isGap c⟩

def steps : Nat → Cursor → Cursor
  | 0, k => k
  | n + 1, k => steps n k.step

theorem rest_step (k : Cursor) : k.step.rest = k.rest.drop 1 := by
  unfold step
  split <;> rename_i h
  · simp [h]
  · split <;> simp [h]

/-- So many steps pass so many characters. -/
theorem rest_steps (n : Nat) (k : Cursor) : (steps n k).rest = k.rest.drop n := by
  induction n generalizing k with
  | zero => rfl
  | succ n ih => simp [steps, ih, rest_step]

/-- The characters between two places. -/
def upTo (k later : Cursor) : List Char :=
  k.rest.take (k.rest.length - later.rest.length)

/-- The later place from which on those characters are left. -/
def before (k : Cursor) (left : List Char) : Cursor :=
  steps (k.rest.length - left.length) k

/-- Nothing but spaces stands before the place on its line, so that a block may begin here. -/
def isFresh (k : Cursor) : Bool :=
  k.indent == k.column

/-- The place behind the characters that the test accepts. -/
def skipWhile (test : Char → Bool) (k : Cursor) : Cursor :=
  steps (k.rest.takeWhile test).length k

theorem rest_skipWhile (test : Char → Bool) (k : Cursor) :
    (k.skipWhile test).rest = k.rest.dropWhile test := by
  have drop_takeWhile (s : List Char) : s.drop (s.takeWhile test).length = s.dropWhile test := by
    induction s with
    | nil => rfl
    | cons c s ih => by_cases h : test c <;> simp [h, ih]
  rw [skipWhile, rest_steps, drop_takeWhile]

def skipGap (k : Cursor) : Cursor :=
  steps (gapLength false k.free k.rest) k

/-- Three times the character at the start of a line, and nothing else in the word. -/
def isMark (c : Char) (k : Cursor) : Bool :=
  k.column == 0 && k.rest.take 3 == [c, c, c] && standsAlone (k.rest.drop 3)

/-- The document cannot go on behind the place: the text is over, or the end of the document
or the start of another one is marked. -/
def isBoundary (k : Cursor) : Bool :=
  k.rest.isEmpty || k.isMark '-' || k.isMark '.'

/-- The mark stands alone at the place, as it does before an item, a key or a value. -/
def isAlone (mark : Char) (k : Cursor) : Bool :=
  match k.rest with
  | c :: rest => c == mark && standsAlone rest
  | _ => false

/-- The mark of an item of a block sequence. -/
def isItem (k : Cursor) : Bool :=
  k.isAlone '-'

end Cursor

end HostBridge.Yaml
