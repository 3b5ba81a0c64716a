import HostBridge.Text.Blank
import HostBridge.Text.Quoted

/-!
# The host's symbols

An `Abi` says which C symbols of the host the generated code uses, and how it is
indented. `fault?` finds the first reason for which an `Abi` cannot be used.
-/

namespace HostBridge

/-- The host symbols that generated code uses. -/
structure Abi where
  handleType : String
  null : String
  /-- Takes a reference; null is allowed. -/
  incRef : String
  /-- Gives a reference back; null is allowed. -/
  decRef : String
  /-- Stands before a binding's name in the name of its host slot. -/
  slotPrefix : String
  checkPrefix : String
  unboxPrefix : String
  boxPrefix : String
  /-- Reports an object of the wrong type. -/
  typeError : String
  indentWidth : Nat
  deriving DecidableEq, Repr

/-- Why an `Abi` cannot be used. -/
inductive AbiFault where
  | emptyField (field : String)
  | badSlotPrefix (text : String)
  deriving DecidableEq, Repr

def AbiFault.message : AbiFault → String
  | emptyField field => "Host ABI field " ++ field ++ " is empty"
  | badSlotPrefix text =>
    "Host ABI host_prefix " ++ Text.quote text ++ " must be a non-empty identifier prefix"

namespace Abi

def standard : Abi where
  handleType := "HostObject*"
  null := "NULL"
  incRef := "HOST_XINCREF"
  decRef := "HOST_XDECREF"
  slotPrefix := "host_"
  checkPrefix := "host_is_"
  unboxPrefix := "host_as_"
  boxPrefix := "host_from_"
  typeError := "host_set_type_error"
  indentWidth := 4

/-- The fields that have to hold a symbol, in the order in which they are looked at. -/
def symbols (a : Abi) : List (String × String) :=
  [("handle_type", a.handleType), ("null", a.null), ("xincref", a.incRef),
    ("xdecref", a.decRef), ("check_prefix", a.checkPrefix), ("unbox_prefix", a.unboxPrefix),
    ("box_prefix", a.boxPrefix), ("type_error", a.typeError)]

/-- Letters and digits of ASCII and underscores, at least one of them. An empty text would
give a binding's host slot the name of its native variable. -/
def isSlotPrefix (s : String) : Bool :=
  !s.isEmpty && s.toList.all fun c => c.isAlphanum || c == '_'

/-- The first fault: a blank symbol, or else a text that cannot begin a slot's name. -/
def fault? (a : Abi) : Option AbiFault :=
  match a.symbols.find? fun field => Text.allBlank field.2 with
  | some field => some (.emptyField field.1)
  | none => if isSlotPrefix a.slotPrefix then none else some (.badSlotPrefix a.slotPrefix)

/-- The name of a binding's host slot. -/
def slotName (a : Abi) (binding : String) : String :=
  a.slotPrefix ++ binding

end Abi

end HostBridge
