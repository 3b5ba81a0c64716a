import HostBridge.Yaml.Block

/-!
# Documents

A document may begin behind directives and a line of three dashes, and goes on to the end of
the text or to the next mark. What comes behind that mark is not read.
-/

namespace HostBridge.Yaml

namespace Cursor

/-- The place where the line ends. -/
def lineEnd (k : Cursor) : Cursor :=
  k.skipWhile fun c => !isBreak c

/-- The mark stands alone on its line, a comment apart. -/
def endsLine (k : Cursor) : Bool :=
  isTail ((k.rest.drop 3).takeWhile fun c => !isBreak c)

end Cursor

/-- The place where the first document's node can begin, and whether a block can begin there:
neither on the line of the mark nor behind a tab. Marks of an end before the document do not count; behind
directives the document's start must be marked. -/
def opening? : Nat → Bool → Cursor → Option (Bool × Cursor)
  | 0, _, _ => none
  | fuel + 1, directives, k =>
    let next := k.skipGap
    if next.isMark '-' then
      let node := (Cursor.steps 3 next).skipGap
      some (node.isFresh, node)
    else if next.column = 0 ∧ next.rest.head? = some '%' then opening? fuel true next.lineEnd
    else if directives then none
    else if next.isMark '.' then
      if next.endsLine then opening? fuel false next.lineEnd else none
    else some (next.isFresh, next)

/-- The node of the first document in a text. -/
def document? (s : List Char) : Option Node := do
  let start := Cursor.start (Text.joinPairs s)
  let (blocks, k) ← opening? (s.length + 1) false start
  if k.isBoundary then none
  else
    let (node, behind) ← block? blocks k
    let next := behind.skipGap
    if next.isBoundary ∧ (next.isMark '.' → next.endsLine) then some node else none

end HostBridge.Yaml
