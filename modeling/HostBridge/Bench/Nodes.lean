import HostBridge.Bench.Basic
import HostBridge.Value.InPlace

/-!
# Objects, operations and nodes on a bench
-/

namespace HostBridge

/-- Which kind a new node is of. -/
inductive KindChoice where
  | handle
  | scalar (type : ScalarType)
  | bare
  | scripted (script : Script)

namespace KindChoice

def isScripted : KindChoice → Bool
  | scripted _ => true
  | _ => false

def toKind (ident : Nat) : KindChoice → Kind
  | handle => Kind.handle ident
  | scalar type => Kind.scalar type ident
  | bare => Kind.bare ident
  | scripted script => script.toKind ident

end KindChoice

/-- What a clone has in common with the node it was made from. -/
structure CloneReport where
  copy : BenchNode
  isEqual : Bool
  sharesKind : Bool
  /-- The data are one object; asked only where both have data. -/
  sharesData : Option Bool

namespace Bench

/-- Creates the objects of a shape and names the outermost one. -/
def addObject (name : String) (shape : Shape) : BenchM HostValue := do
  let value ← inWorld fun w =>
    let (value, next) := shape.create w.next
    (value, { w with next := next })
  putObject name value
  return value

def duplicateObject (source name : String) : BenchM HostValue := do
  let value := (← object source).duplicate (← freshIdentity)
  putObject name value
  return value

def sameObject (a b : String) : BenchM Bool := do
  return (← object a).same (← object b)

/-- Names an item of a list, or what is inside a box. -/
def nameElement (source : String) (i : Nat) (name : String) : BenchM HostValue := do
  let value ← find "elem" ((← object source).element? i)
  putObject name value
  return value

def addOperation (name idText typeName : String) (arity : Option Nat) : BenchM Operation := do
  match Token.ofText? idText with
  | none => throw .badToken
  | some id =>
    let op : Operation := ⟨id, typeName, arity⟩
    modify fun b => { b with operations := b.operations.put name op }
    return op

def sameBinding (a b : String × Nat) : BenchM Bool := do
  return (← role a).sameBinding (← role b)

/-- Creates a node. Taking a role is noted even if the node's name is refused then. -/
def addNode (name : String) (choice : KindChoice) (role? : Option (String × Nat))
    (explicitName : Option String) : BenchM BenchNode := do
  let given ← role?.mapM role
  let kind := choice.toKind (← freshIdentity)
  let id ← freshIdentity
  note (given.toList.flatMap (Record.ofRole ⟨id, kind, none, .empty, none⟩))
  let n : BenchNode := ⟨← require (Node.create id kind given explicitName), choice.isScripted⟩
  putNode name n
  return n

/-- Carries out an operation on a named node in its place. -/
def onNode {α : Type} (name : String) (operation : NodeM α) : BenchM α := do
  let n ← node name
  let outcome ← modifyGet fun b =>
    let (outcome, changed, w) := operation.runOn n.node b.world
    (outcome, { b with nodes := b.nodes.put name { n with node := changed }, world := w })
  require outcome

/-- Creates an opaque node that holds an object. -/
def addHolding (name obj : String) (explicitName : Option String) : BenchM BenchNode := do
  let value ← object obj
  let kind := Kind.handle (← freshIdentity)
  let blank ← require (Node.create (← freshIdentity) kind none explicitName)
  let n : BenchNode := ⟨← require (← inWorld (blank.setData (some value))), false⟩
  putNode name n
  return n

def setRole (name : String) (r : String × Nat) : BenchM Unit := do
  let requested ← role r
  note (Record.ofRole (← node name).node requested)
  onNode name (NodeM.setRole requested)

def setData (name : String) (obj : Option String) : BenchM Unit := do
  onNode name (NodeM.setData (← obj.mapM object))

def setName (name : String) (explicitName : Option String) : BenchM Unit :=
  onNode name (NodeM.setName explicitName)

def allocate (name : String) : BenchM Unit :=
  onNode name NodeM.markAllocated

def release (name : String) : BenchM Unit :=
  onNode name NodeM.release

/-- Clones a node and names the copy. -/
def clone (source name : String) : BenchM CloneReport := do
  let copy ← onNode source NodeM.cloneUnbound
  let n ← node source
  let shares := match n.node.datum, copy.datum with
    | some a, some b => some (a.same b)
    | _, _ => none
  let report : CloneReport :=
    ⟨{ n with node := copy }, copy.same n.node, copy.kind.ident == n.node.kind.ident, shares⟩
  putNode name report.copy
  return report

def sameProperties (a b : String) : BenchM Bool := do
  require ((← node a).node.sameProperties (← node b).node)

def sameNode (a b : String) : BenchM Bool := do
  return (← node a).node.same (← node b).node

/-- How many different nodes these are. -/
def countDistinct (names : List String) : BenchM Nat := do
  let nodes ← names.mapM node
  return (nodes.map (·.node.id)).eraseDups.length

/-- Names the data of a node. -/
def nameDatum (source name : String) : BenchM (Option HostValue) := do
  match (← node source).node.datum with
  | some value =>
    putObject name value
    return some value
  | none => return none

/-- The data of a node is that object; asked only where it has data. -/
def holdsObject (name obj : String) : BenchM (Option Bool) := do
  let value ← object obj
  return (← node name).node.datum.map (·.same value)

/-- Consults the filter of a node's kind: the answer, and whether it is the object itself. -/
def filter (name obj : String) : BenchM (HostValue × Bool) := do
  let value ← object obj
  let n ← node name
  let answer ← require (← inWorld (n.node.kind.consult value))
  return (answer, answer.same value)

/-- The literal of a node's data, or of the data that is given instead, which is looked up
first. -/
def literal (name : String) (instead : Option (Option String)) : BenchM Literal := do
  let given ← instead.mapM fun obj => obj.mapM object
  let n ← node name
  require (n.node.kind.literal (given.getD n.node.datum))

end Bench

end HostBridge
