import HostBridge.Text.Blank
import HostBridge.Value.Kind
import HostBridge.Value.Role

/-!
# Value nodes

A node is one piece of data that flows between operations. It has an identity, a kind, at
most one role, a slot for data and perhaps a name of its own. Operations on a node answer
with the changed node or with a reason and no node, so a refused operation changes
nothing.

Storing data consults the kind's filter, which may create an object: `World` supplies
identities that are not in use and keeps the list of consulted kinds.
-/

namespace HostBridge

/-- A name for a value: not empty and without control characters. -/
structure ValueName where
  text : String
  text_ne_empty : text ≠ ""
  no_control : text.toList.any Text.isControl = false
  deriving DecidableEq

/-- The name, if it is one. -/
def ValueName.ofText (s : String) : Except ValueError ValueName :=
  if empty : s = "" then .error (.invalidArgument .emptyName)
  else if clean : s.toList.any Text.isControl = false then .ok ⟨s, empty, clean⟩
  else .error (.invalidArgument (.controlInName s))

/-- The data slot of a node: how far its data has come, and the data that is held. -/
structure DataSlot where
  state : DataState
  value? : Option HostValue

namespace DataSlot

def empty : DataSlot := ⟨.empty, none⟩

def holding (value : HostValue) : DataSlot := ⟨.computed, some value⟩

end DataSlot

/-- The surroundings of nodes: identities below `next` are in use, and `filterCalls` lists
the kinds whose filter was consulted, the latest first. -/
structure World where
  next : Nat
  filterCalls : List Nat

namespace World

def start : World := ⟨0, []⟩

/-- The world after one identity was taken. -/
def advance (w : World) : World :=
  { w with next := w.next + 1 }

end World

/-- Consults a kind's filter. -/
def Kind.consult (k : Kind) (value : HostValue) (w : World) :
    Except ValueError HostValue × World :=
  (k.filter w.next value, { next := w.next + 1, filterCalls := k.ident :: w.filterCalls })

/-- One piece of data flowing between operations. -/
structure Node where
  /-- Nodes are told apart by it. -/
  id : Nat
  kind : Kind
  role : Option Role
  slot : DataSlot
  explicitName : Option ValueName

namespace Node

def datum (n : Node) : Option HostValue :=
  n.slot.value?

def state (n : Node) : DataState :=
  n.slot.state

/-- The name of its own, or else the name its role gives it. -/
def name (n : Node) : String :=
  match n.explicitName, n.role with
  | some name, _ => name.text
  | none, some role => role.valueName
  | none, none => "anonymous"

/-- Gives the node its role. The role it has already is accepted again and any other
refused; a first role must be an output that the owner can have. -/
def setRole (n : Node) (requested : Role) : Except ValueError Node :=
  match n.role with
  | some existing =>
    if existing.sameBinding requested then .ok n
    else .error (.ownershipConflict n.name (existing.conflict requested))
  | none =>
    match requested.owner.arity with
    | some arity =>
      if requested.index < arity then .ok { n with role := some requested }
      else
        .error (.invalidArgument
          (.outputOutOfRange requested.index requested.owner.typeName arity))
    | none => .ok { n with role := some requested }

/-- Gives the node a name of its own or takes it away. -/
def setName (n : Node) : Option String → Except ValueError Node
  | none => .ok { n with explicitName := none }
  | some name => do
    let name ← ValueName.ofText name
    .ok { n with explicitName := some name }

/-- Stores what the filter makes of a value, or the value itself where the kind has no
filter. Storing the object that is held already does nothing; no value empties the slot. -/
def setData (n : Node) (value? : Option HostValue) (w : World) : Except ValueError Node × World :=
  match value? with
  | none => (.ok { n with slot := .empty }, w)
  | some value =>
    if n.datum.any (·.same value) then (.ok n, w)
    else
      let (answer, w) := n.kind.consult value w
      match answer with
      | .ok filtered => (.ok { n with slot := .holding filtered }, w)
      | .error e =>
        if e.isUnsupported then (.ok { n with slot := .holding value }, w) else (.error e, w)

/-- Marks native storage as reserved. That would invalidate data that is held. -/
def markAllocated (n : Node) : Except ValueError Node :=
  match n.state with
  | .empty => .ok { n with slot := { n.slot with state := .allocated } }
  | .allocated => .ok n
  | .computed => .error (.invalidState n.name .computed "mark storage allocated")

/-- Drops a reservation that never received data. -/
def release (n : Node) : Node :=
  if n.state = .allocated then { n with slot := { n.slot with state := .empty } } else n

/-- A node with no data. A role and a name are given to it in this order. -/
def create (id : Nat) (kind : Kind) (role : Option Role) (name : Option String) :
    Except ValueError Node := do
  let blank : Node := ⟨id, kind, none, .empty, none⟩
  let bound ← match role with
    | some role => blank.setRole role
    | none => .ok blank
  bound.setName name

/-- Compares the kinds' configurations. -/
def sameProperties (n other : Node) : Except ValueError Bool :=
  n.kind.sameProperties other.kind.toProfile

/-- A new node of the same kind and name, without role, with data of its own. -/
def cloneUnbound (n : Node) (w : World) : Except ValueError Node × World :=
  let answer := n.kind.cloneData w.next n.datum
  let w := w.advance
  match answer with
  | .error e => (.error e, w)
  | .ok data =>
    let copy : Node := ⟨w.next, n.kind, none, .empty, n.explicitName⟩
    copy.setData data w.advance

/-- Nodes are equal when they are the same node. -/
def same (n other : Node) : Bool :=
  n.id == other.id

/-- The name, followed by the data that was computed. -/
def toText (n : Node) : String :=
  match n.datum, n.state with
  | some value, .computed => n.name ++ ":" ++ value.toText
  | _, _ => n.name

/-- All about the node except its data. The identity is shown as `idText`. -/
def describe (n : Node) (idText : String) : String :=
  let owner :=
    match n.role with
    | some role => "Some(OperationId(" ++ role.owner.id.toText ++ "))"
    | none => "None"
  let index :=
    match n.role with
    | some role => "Some(" ++ toString role.index ++ ")"
    | none => "None"
  "ValueNode \x7b id: ValueId(" ++ idText ++ "), kind: " ++ Text.quote n.kind.typeName ++
    ", name: " ++ Text.quote n.name ++ ", state: " ++ n.state.name ++ ", owner: " ++ owner ++
    ", index: " ++ index ++ " \x7d"

end Node

end HostBridge
