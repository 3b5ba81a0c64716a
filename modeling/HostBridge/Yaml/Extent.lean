import HostBridge.Yaml.Folding

/-!
# How far a plain scalar goes

A plain scalar goes on until something comes that cannot belong to it: a colon that ends a
key, a comment, in flow style a mark, or a line that is not indented enough. It goes on
over the end of a line only if its last character stands right before that end. The blanks
at its end do not belong to it.
-/

namespace HostBridge.Yaml

/-- The characters that end a plain scalar in flow style wherever they stand. -/
def isFlowMark (c : Char) : Bool :=
  c == ',' || c == '[' || c == ']' || c == '\x7b' || c == '\x7d'

/-- The characters with which no plain scalar begins. -/
def isReserved (inFlow : Bool) (c : Char) : Bool :=
  isFlowMark c || c ∈ ['&', '*', '!', '\'', '"', '#'] || (!inFlow && (c == '|' || c == '>'))

/-- A colon that ends a plain key: a gap, or in flow style a mark, follows it. At the end of
the document a colon belongs to the scalar. -/
def isKeyColon (inFlow : Bool) : List Char → Bool
  | ':' :: c :: _ => isGap c || (inFlow && isFlowMark c)
  | _ => false

/-- What comes ends a plain scalar. -/
def endsPlain (inFlow : Bool) (rest : List Char) : Bool :=
  isKeyColon inFlow rest || (inFlow && rest.head?.any isFlowMark)

/-- A plain scalar can begin at the place: with a character that is neither a gap nor
reserved, and not with one of `-`, `?` and `:` unless something follows that can go on with
it. A percent sign begins a scalar only where it cannot begin a directive. -/
def startsPlain (inFlow : Bool) (k : Cursor) : Bool :=
  match k.rest with
  | [] => false
  | c :: rest =>
    if isReserved inFlow c || isGap c || (c == '%' && k.column == 0) then false
    else if c == '-' || c == '?' || c == ':' then
      rest.head?.any fun d => !isGap d && !(inFlow && isFlowMark d)
    else true

/-- A plain scalar does not go on at the first place behind the end of a line that is not
blank. In flow style the indentation of that line does not matter. -/
def stopsAt (inFlow : Bool) (least : Nat) (k : Cursor) : Bool :=
  k.isBoundary || k.rest.head? == some '#' || endsPlain inFlow k.rest ||
    (!inFlow && k.indent < least)

/-- The characters of a plain scalar from a place on, and the place behind them. Behind the
last line that belongs to it, this is the first place that is not blank. -/
def extent (inFlow : Bool) (least : Nat) : Nat → Cursor → List Char × Cursor
  | 0, k => ([], k)
  | fuel + 1, k =>
    match k.rest with
    | [] => ([], k)
    | c :: rest =>
      if isBreak c then
        let next := k.skipWhile isGap
        if stopsAt inFlow least next then ([], next)
        else
          let feeds := (k.upTo next).countP isBreak
          let (s, behind) := extent inFlow least fuel next
          (lineGap [' '] (feeds - 1) ++ s, behind)
      else if isSpace c then
        let next := k.skipWhile isSpace
        if next.rest.head?.all (fun d => isBreak d || d == '#') || endsPlain inFlow next.rest then
          ([], k)
        else
          let (s, behind) := extent inFlow least fuel next
          (k.upTo next ++ s, behind)
      else if endsPlain inFlow (c :: rest) then ([], k)
      else
        let (s, behind) := extent inFlow least fuel k.step
        (c :: s, behind)

/-- A plain scalar and the place behind it, if one begins here. Each step takes a
character. -/
def plain? (inFlow : Bool) (least : Nat) (k : Cursor) : Option (List Char × Cursor) :=
  if startsPlain inFlow k then some (extent inFlow least (k.rest.length + 1) k) else none

end HostBridge.Yaml
