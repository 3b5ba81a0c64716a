import HostBridge.Error

/-!
# Operations and roles

An operation produces values as numbered outputs. A role says of which operation a value
is which output. Operations are told apart by their identity alone.
-/

namespace HostBridge

/-- What produces values, by what it answers when a request is made: its type name and the
number of its outputs, which may not be known yet. An owner is asked anew each time. Here a
request brings the answers along, so requests may name one owner with different answers, and
a role keeps those that it was bound with. -/
structure Operation where
  id : Token
  typeName : String
  arity : Option Nat
  deriving DecidableEq, Repr

/-- The operation may have an output of that index: the index is below the number of
outputs where that is known. -/
def Operation.admits (op : Operation) (index : Nat) : Bool :=
  match op.arity with
  | some arity => index < arity
  | none => true

/-- Being the `index`-th output of `owner`. -/
structure Role where
  owner : Operation
  index : Nat
  deriving DecidableEq, Repr

namespace Role

/-- The same index of the same operation; other traits of the operation do not count. -/
def sameBinding (a b : Role) : Bool :=
  a.owner.id == b.owner.id && a.index == b.index

/-- Why a node in role `existing` cannot take the role `requested` as well. -/
def conflict (existing requested : Role) : RoleConflict :=
  if existing.owner.id ≠ requested.owner.id then
    .differentOwner existing.owner.id requested.owner.id
  else
    .differentIndex existing.index requested.index

/-- The name of a value that has none of its own. -/
def valueName (role : Role) : String :=
  role.owner.typeName ++ "." ++ toString role.index

end Role

end HostBridge
