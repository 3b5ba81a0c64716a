import HostBridge.Value.Node

/-!
# Nodes changed where they lie

`Node` says what becomes of a node by an operation. Here the operations are carried out on a node
in its place, one check or assignment after the other. What was assigned before an operation is
refused stays assigned: that a refused operation leaves the node as it was follows from the order
of the steps.
-/

namespace HostBridge

/-- An operation on a node in its place, among its surroundings. What it did before it was refused
stays done. -/
abbrev NodeM := ExceptT ValueError (StateM (Node × World))

namespace NodeM

/-- The outcome on a node, the node after it and its surroundings. -/
def runOn {α : Type} (operation : NodeM α) (n : Node) (w : World) :
    Except ValueError α × Node × World :=
  operation.run.run (n, w)

/-- The node as it is now. -/
def self : NodeM Node := do
  return (← get).1

def assign (f : Node → Node) : NodeM Unit :=
  modify fun s => (f s.1, s.2)

def assignRole (role : Role) : NodeM Unit :=
  assign fun n => { n with role := some role }

def assignName (name? : Option ValueName) : NodeM Unit :=
  assign fun n => { n with explicitName := name? }

def assignDatum (value? : Option HostValue) : NodeM Unit :=
  assign fun n => { n with slot := { n.slot with value? } }

def assignState (state : DataState) : NodeM Unit :=
  assign fun n => { n with slot := { n.slot with state } }

/-- The outcome of something that may be refused. -/
def require {α : Type} : Except ValueError α → NodeM α
  | .ok a => pure a
  | .error e => throw e

/-- Runs an operation on the surroundings alone. -/
def inWorld {α : Type} (f : World → α × World) : NodeM α :=
  modifyGet fun s =>
    let (a, w) := f s.2
    (a, s.1, w)

/-- An identity that is not in use. -/
def freshIdentity : NodeM Nat :=
  inWorld fun w => (w.next, w.advance)

/-- What the filter of the node's kind answers. -/
def consult (value : HostValue) : NodeM (Except ValueError HostValue) := do
  let n ← self
  inWorld (n.kind.consult value)

/-- Carries out an operation on another node, which is the result. -/
def on (other : Node) (operation : NodeM Unit) : NodeM Node := do
  let (outcome, changed) ← inWorld fun w =>
    let (outcome, changed, w) := operation.runOn other w
    ((outcome, changed), w)
  require outcome
  return changed

section Running

variable {α β : Type} (n : Node) (w : World)

@[simp] theorem runOn_pure (a : α) : (pure a : NodeM α).runOn n w = (.ok a, n, w) :=
  rfl

@[simp] theorem runOn_throw (e : ValueError) : (throw e : NodeM α).runOn n w = (.error e, n, w) :=
  rfl

@[simp] theorem runOn_bind (operation : NodeM α) (next : α → NodeM β) :
    (operation >>= next).runOn n w =
      match operation.runOn n w with
      | (.ok a, m, w) => (next a).runOn m w
      | (.error e, m, w) => (.error e, m, w) := by
  unfold runOn
  rw [ExceptT.run_bind, StateT.run_bind]
  rcases operation.run.run (n, w) with ⟨_ | a, m, w⟩ <;> rfl

@[simp] theorem runOn_self : self.runOn n w = (.ok n, n, w) :=
  rfl

@[simp] theorem runOn_assign (f : Node → Node) : (assign f).runOn n w = (.ok (), f n, w) :=
  rfl

@[simp] theorem runOn_require (answer : Except ValueError α) :
    (require answer).runOn n w = (answer, n, w) := by
  cases answer <;> rfl

@[simp] theorem runOn_inWorld (f : World → α × World) :
    (inWorld f).runOn n w = (.ok (f w).1, n, (f w).2) :=
  rfl

@[simp] theorem runOn_freshIdentity : freshIdentity.runOn n w = (.ok w.next, n, w.advance) :=
  rfl

@[simp] theorem runOn_consult (value : HostValue) :
    (consult value).runOn n w = (.ok (n.kind.consult value w).1, n, (n.kind.consult value w).2) :=
  rfl

@[simp] theorem runOn_on (other : Node) (operation : NodeM Unit) :
    (on other operation).runOn n w =
      match operation.runOn other w with
      | (.ok (), m, w) => (.ok m, n, w)
      | (.error e, _, w) => (.error e, n, w) := by
  unfold on
  rw [runOn_bind, runOn_inWorld]
  rcases operation.runOn other w with ⟨_ | _, m, v⟩ <;> rfl

end Running

def setRole (requested : Role) : NodeM Unit := do
  let n ← self
  match n.role with
  | some existing =>
    if existing.sameBinding requested then return ()
    else throw (.ownershipConflict n.name (existing.conflict requested))
  | none =>
    match requested.owner.arity with
    | some arity =>
      if arity ≤ requested.index then
        throw (.invalidArgument
          (.outputOutOfRange requested.index requested.owner.typeName arity))
      else assignRole requested
    | none => assignRole requested

def setName : Option String → NodeM Unit
  | none => assignName none
  | some text => do
    let name ← require (ValueName.ofText text)
    assignName (some name)

/-- Stores a datum that needs no more checks. -/
def store (value : HostValue) : NodeM Unit := do
  assignDatum (some value)
  assignState .computed

def setData : Option HostValue → NodeM Unit
  | none => do
    assignDatum none
    assignState .empty
  | some value => do
    let n ← self
    if n.datum.any (·.same value) then return ()
    else
      match ← consult value with
      | .ok filtered => store filtered
      | .error e => if e.isUnsupported then store value else throw e

def markAllocated : NodeM Unit := do
  let n ← self
  match n.state with
  | .empty => assignState .allocated
  | .allocated => return ()
  | .computed => throw (.invalidState n.name .computed "mark storage allocated")

def release : NodeM Unit := do
  let n ← self
  if n.state = .allocated then assignState .empty

/-- A new node of the same kind. Its name is checked and its data go through the filter again. -/
def cloneUnbound : NodeM Node := do
  let n ← self
  let data ← require (n.kind.cloneData (← freshIdentity) n.datum)
  let copy ← require (Node.create (← freshIdentity) n.kind none (n.explicitName.map (·.text)))
  on copy (setData data)

end NodeM

end HostBridge
