import HostBridge.Yaml.Flow
import HostBridge.Yaml.Literal

/-!
# Block style

In block style the columns say what belongs together: the keys of a mapping stand in one
column, the marks of a sequence's items in one, and what is inside stands further right.
Two things may stand in the column of their key, below it: the items of a sequence, and a
value that is no block itself.
-/

namespace HostBridge.Yaml

/-- A node that is neither a block nor a literal, and the place behind it. -/
def inline? (least : Nat) (k : Cursor) : Option (Node × Cursor) :=
  match k.rest with
  | '[' :: _ | '\x7b' :: _ | '"' :: _ | '\'' :: _ => flow? least k
  | _ => (plain? false least k).map fun (s, behind) => (.plain (String.ofList s), behind)

/-- The place of the colon behind a key, which must be on the line on which the key began. -/
def colonBehind? (key behind : Cursor) : Option Cursor :=
  let colon := behind.skipWhile isSpace
  if colon.isAlone ':' && colon.line == key.line then some colon else none

/-- The key at a place and the place behind its colon. -/
def simpleKey? (k : Cursor) : Option (Node × Cursor) := do
  let (key, behind) ← inline? (k.column + 1) k
  let colon ← colonBehind? k behind
  some (key, colon.step)

/-- An entry of a mapping begins at the place. -/
def startsField (k : Cursor) : Bool :=
  k.isAlone '?' || k.isAlone ':' || (simpleKey? k).isSome

/-- How a value stands to the block that it is in. -/
inductive Standing where
  /-- On the line of its key or of its item's mark. -/
  | beside
  /-- On a later line, further right. -/
  | inside
  /-- On a later line, in the same column. -/
  | below
  /-- There is no value: the document or the block is over. -/
  | missing
  deriving DecidableEq, Repr

/-- Where a value stands that is the next thing behind `k`. -/
def standing (column : Nat) (k next : Cursor) : Standing :=
  if next.isBoundary then .missing
  else if next.line = k.line then .beside
  else if column < next.column then .inside
  else if column = next.column then .below
  else .missing

/-- There is a tab between the places, so that no block can begin at the later one if both are
on one line. -/
def hasTab (k next : Cursor) : Bool :=
  (k.upTo next).elem '\t'

mutual

/-- The node at a place, indented by at least `least`, and the place behind it. With
`blocks` a block may begin there. -/
def blockNode (least : Nat) (blocks : Bool) : Nat → Cursor → Option (Node × Cursor)
  | 0, _ => none
  | fuel + 1, k =>
    if k.isItem then
      if blocks then (blockItems k.column fuel k).map fun (items, behind) => (.sequence items, behind)
      else none
    else if blocks && (k.isAlone '?' || k.isAlone ':') then
      (blockFields k.column fuel k).map fun (fields, behind) => (.mapping fields, behind)
    else if k.rest.head? = some '|' then
      (literal? least k.step).map fun (s, behind) => (.text (String.ofList s), behind)
    else
      match inline? least k with
      | none => none
      | some (node, behind) =>
        if blocks && (colonBehind? k behind).isSome then
          (blockFields k.column fuel k).map fun (fields, behind) => (.mapping fields, behind)
        else some (node, behind)
termination_by structural fuel => fuel

/-- The value behind the colon of a key in a column. With `blocks` a block may begin on the
same line. -/
def blockValue (column : Nat) (blocks : Bool) : Nat → Cursor → Option (Node × Cursor)
  | 0, _ => none
  | fuel + 1, k =>
    let next := k.skipGap
    match standing column k next with
    | .missing => some (.absent, next)
    | .beside => blockNode (column + 1) ((blocks || next.isFresh) && !hasTab k next) fuel next
    | .inside =>
      if next.isFresh || column < next.indent then blockNode (column + 1) next.isFresh fuel next
      else none
    | .below =>
      if next.isItem then
        (blockItems column fuel next).map fun (items, behind) => (.sequence items, behind)
      else if startsField next then some (.absent, next)
      else blockNode (column + 1) false fuel next
termination_by structural fuel => fuel

/-- The items of a sequence whose marks stand in a column. -/
def blockItems (column : Nat) : Nat → Cursor → Option (List Node × Cursor)
  | 0, _ => none
  | fuel + 1, k => do
    let next := k.step.skipGap
    let (item, behind) ← match standing column k next with
      | .missing => some (.absent, next)
      | .beside => blockNode (column + 1) (!hasTab k next) fuel next
      | .inside =>
        if next.isFresh || column < next.indent then blockNode (column + 1) next.isFresh fuel next
        else none
      | .below =>
        if next.isItem || startsField next then some (.absent, next)
        else blockNode (column + 1) false fuel next
    let next := behind.skipGap
    if next.isBoundary then some ([item], next)
    else if !next.isFresh || column < next.column then none
    else if next.column = column ∧ next.isItem then do
      let (items, behind) ← blockItems column fuel next
      some (item :: items, behind)
    else some ([item], next)
termination_by structural fuel => fuel

/-- The fields of a mapping whose keys stand in a column. -/
def blockFields (column : Nat) : Nat → Cursor → Option (List Field × Cursor)
  | 0, _ => none
  | fuel + 1, k => do
    let (field, behind) ←
      if k.isAlone '?' then do
        let (key, behind) ← blockValue column true fuel k.step
        let next := behind.skipGap
        if next.isFresh && next.column == column && next.isAlone ':' then do
          let (value, behind) ← blockValue column true fuel next.step
          some ((key, value), behind)
        else some ((key, .absent), behind)
      else if k.isAlone ':' then do
        let (value, behind) ← blockValue column true fuel k.step
        some ((.absent, value), behind)
      else do
        let (key, colon) ← simpleKey? k
        let (value, behind) ← blockValue column false fuel colon
        some ((key, value), behind)
    let next := behind.skipGap
    if next.isBoundary then some ([field], next)
    else if !next.isFresh || column < next.column then none
    else if next.column = column then
      if next.isItem then none
      else do
        let (fields, behind) ← blockFields column fuel next
        some (field :: fields, behind)
    else some ([field], next)
termination_by structural fuel => fuel

end

/-- The node in block style that begins at a place. Of the steps of the readers at most four
pass between two characters, so the length of the text bounds their depth. -/
def block? (blocks : Bool) (k : Cursor) : Option (Node × Cursor) :=
  blockNode 0 blocks (8 * k.rest.length + 8) k

end HostBridge.Yaml
