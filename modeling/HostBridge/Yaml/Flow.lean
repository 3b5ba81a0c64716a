import HostBridge.Yaml.Extent
import HostBridge.Yaml.Node
import HostBridge.Yaml.Quoted

/-!
# Flow style

Nodes in flow style stand between brackets and braces, and line ends do not matter inside
but for one thing: where a gap in a node goes over the end of a line, what follows must be
indented by `least`. The end of a plain scalar takes such gaps in, and then nothing is asked.
-/

namespace HostBridge.Yaml

/-- The place behind a gap in a flow node, if the node may go on there. -/
def skipFlow (least : Nat) (k : Cursor) : Option Cursor :=
  let next := k.skipGap
  if next.line ≠ k.line ∧ (next.indent < least ∨ next.isBoundary) then none else some next

/-- The mark ends an item or a field. -/
def isFlowEnd (c : Char) : Bool :=
  c == ',' || c == ']' || c == '\x7d'

mutual

/-- A node in flow style, and the place behind it. -/
def flowNode (least : Nat) : Nat → Cursor → Option (Node × Cursor)
  | 0, _ => none
  | fuel + 1, k =>
    match k.rest with
    | '[' :: _ => do
      let (items, behind) ← flowItems least fuel (← skipFlow least k.step)
      some (.sequence items, behind)
    | '\x7b' :: _ => do
      let (fields, behind) ← flowFields least fuel (← skipFlow least k.step)
      some (.mapping fields, behind)
    | '"' :: _ | '\'' :: _ =>
      (quoted? least k).map fun (s, behind) => (.text (String.ofList s), behind)
    | _ => (plain? true least k).map fun (s, behind) => (.plain (String.ofList s), behind)

/-- A key, which may be missing, and its value, if there is one. Unless a question mark says
that it is a key, its colon may stand at most `reach` lines below its beginning. Behind a key
that is no plain scalar the colon needs no gap; behind a plain one it needs a gap before a
bracket. -/
def flowEntry (least reach : Nat) : Nat → Cursor → Option (Node × Option Node × Cursor)
  | 0, _ => none
  | fuel + 1, k => do
    let first ← if k.isAlone '?' then skipFlow least k.step else some k
    let (key, behind) ←
      if isKeyColon true first.rest || (k.isAlone '?' && first.rest.head?.any isFlowEnd) then
        some (.absent, first)
      else flowNode least fuel first
    let colon ← skipFlow least behind
    match colon.rest with
    | ':' :: rest =>
      if !k.isAlone '?' && k.line + reach < colon.line then none
      else if key.isPlain && rest.head?.any fun c => c == '[' || c == '\x7b' then none
      else
        let next ← skipFlow least colon.step
        if next.rest.head?.any isFlowEnd then
          some (key, some .absent, next)
        else
          let (value, behind) ← flowNode least fuel next
          some (key, some value, behind)
    | _ => some (key, if k.isAlone '?' then some .absent else none, behind)

/-- The items of a sequence up to its closing bracket. A key with a value is an item. -/
def flowItems (least : Nat) : Nat → Cursor → Option (List Node × Cursor)
  | 0, _ => none
  | fuel + 1, k =>
    match k.rest with
    | ']' :: _ => some ([], k.step)
    | _ => do
      let (key, value?, behind) ← flowEntry least 0 fuel k
      let item := match value? with
        | some value => .mapping [(key, value)]
        | none => key
      let next ← skipFlow least behind
      match next.rest with
      | ',' :: _ => do
        let (items, behind) ← flowItems least fuel (← skipFlow least next.step)
        some (item :: items, behind)
      | ']' :: _ => some ([item], next.step)
      | _ => none

/-- The fields of a mapping up to its closing brace. A key may stand alone. -/
def flowFields (least : Nat) : Nat → Cursor → Option (List Field × Cursor)
  | 0, _ => none
  | fuel + 1, k =>
    match k.rest with
    | '\x7d' :: _ => some ([], k.step)
    | _ => do
      let (key, value?, behind) ← flowEntry least 1 fuel k
      let field := (key, value?.getD .absent)
      let next ← skipFlow least behind
      match next.rest with
      | ',' :: _ => do
        let (fields, behind) ← flowFields least fuel (← skipFlow least next.step)
        some (field :: fields, behind)
      | '\x7d' :: _ => some ([field], next.step)
      | _ => none

end

/-- The node in flow style that begins at a place. Of the steps of the readers at most three
pass between two characters, so the length of the text bounds their depth. -/
def flow? (least : Nat) (k : Cursor) : Option (Node × Cursor) :=
  flowNode least (4 * k.rest.length + 4) k

end HostBridge.Yaml
