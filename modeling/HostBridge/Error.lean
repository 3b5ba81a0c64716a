import HostBridge.Text.Quoted
import HostBridge.Token

/-!
# What can be refused, and why

`Capability` lists the hooks a kind of value may provide. `ValueError` lists the causes
for which an operation on values, names or regions is refused. The wording of each
cause is in one place, `ValueError.message`.
-/

namespace HostBridge

/-- A hook that a kind of value provides or leaves out. -/
inductive Capability where
  | filter
  | sameProperties
  | clone
  | literalEncoding
  | declare
  | extract
  | cleanup
  | sync
  | compileDependencies
  | headers
  | libraries
  | supportCode
  deriving DecidableEq, Repr

namespace Capability

/-- Every capability once. -/
def all : List Capability :=
  [filter, sameProperties, clone, literalEncoding, declare, extract, cleanup, sync,
    compileDependencies, headers, libraries, supportCode]

def name : Capability → String
  | filter => "filter"
  | sameProperties => "same_properties"
  | clone => "clone"
  | literalEncoding => "literal_encoding"
  | declare => "declare"
  | extract => "extract"
  | cleanup => "cleanup"
  | sync => "sync"
  | compileDependencies => "compile_dependencies"
  | headers => "headers"
  | libraries => "libraries"
  | supportCode => "support_code"

end Capability

/-- How far the data of a node has come. -/
inductive DataState where
  /-- No meaningful data. -/
  | empty
  /-- Native storage is reserved; its contents are not the owner's output. -/
  | allocated
  /-- The owner's validated output is held. -/
  | computed
  deriving DecidableEq, Repr

def DataState.name : DataState → String
  | empty => "Empty"
  | allocated => "Allocated"
  | computed => "Computed"

/-- Two roles that one node cannot have both. -/
inductive RoleConflict where
  | differentOwner (existing requested : Token)
  | differentIndex (existing requested : Nat)
  deriving DecidableEq, Repr

def RoleConflict.message : RoleConflict → String
  | differentOwner existing requested =>
    "already owned by operation " ++ existing.toText ++ ", requested owner " ++ requested.toText
  | differentIndex existing requested =>
    "already mapped to output " ++ toString existing ++ ", requested output " ++ toString requested

/-- Why an argument is not acceptable. -/
inductive ArgumentFault where
  | outputOutOfRange (index : Nat) (owner : String) (arity : Nat)
  | emptyName
  | controlInName (name : String)
  | bindingNotIdentifier (name : String)
  | labelNotIdentifier (name : String)
  | alreadyBound (value binding : String)
  | bindingTaken (binding value : String)
  | slotCollision (binding other : String)
  /-- A cause of a kind's own. -/
  | ofKind (text : String)
  deriving DecidableEq, Repr

def ArgumentFault.message : ArgumentFault → String
  | outputOutOfRange index owner arity =>
    "output index " ++ toString index ++ " is out of range for " ++ owner ++ " with " ++
      toString arity ++ " outputs"
  | emptyName => "value name must not be empty"
  | controlInName name => "value name " ++ Text.quote name ++ " contains control characters"
  | bindingNotIdentifier name => "binding name " ++ Text.quote name ++ " is not a C identifier"
  | labelNotIdentifier name => "label " ++ Text.quote name ++ " is not a C identifier"
  | alreadyBound value binding => "value " ++ value ++ " is already bound as " ++ binding
  | bindingTaken binding value => "binding " ++ binding ++ " is already used by " ++ value
  | slotCollision binding other =>
    "binding " ++ binding ++ " collides with the host slot of " ++ other
  | ofKind text => text

/-- Why an operation is refused. -/
inductive ValueError where
  | ownershipConflict (value : String) (conflict : RoleConflict)
  | invalidArgument (fault : ArgumentFault)
  | unsupported (kind : String) (capability : Capability)
  | validation (kind : String) (reason : String)
  | invalidState (value : String) (state : DataState) (operation : String)
  deriving DecidableEq, Repr

namespace ValueError

def message : ValueError → String
  | ownershipConflict value conflict =>
    "Value " ++ value ++ " cannot be rebound: " ++ conflict.message
  | invalidArgument fault => "Invalid argument: " ++ fault.message
  | unsupported kind capability =>
    "Value kind " ++ kind ++ " does not support " ++ capability.name
  | validation kind reason => "Value kind " ++ kind ++ " rejected data: " ++ reason
  | invalidState value state operation =>
    "Value " ++ value ++ " is " ++ state.name ++ ", cannot " ++ operation

/-- The error says that a kind lacks a hook, whichever it is. -/
def isUnsupported : ValueError → Bool
  | unsupported .. => true
  | _ => false

end ValueError

/-- The answer of a hook that may be missing: a missing hook is no error but no answer. -/
def supported {α : Type} : Except ValueError α → Except ValueError (Option α)
  | .ok a => .ok (some a)
  | .error e => if e.isUnsupported then .ok none else .error e

end HostBridge
