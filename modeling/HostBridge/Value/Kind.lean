import HostBridge.Native.Block
import HostBridge.Value.Object

/-!
# Kinds of values

A kind is the behaviour shared by the values of one type: a set of hooks. Every hook is
optional. One that is missing answers `unsupported`, which callers take for "this type
cannot do that" and never for a failure.

`filter` and `cloneData` may create an object. They are handed an identity that no object
has yet; since it is another one at each call, a hook may also answer differently from
call to call.
-/

namespace HostBridge

/-- What one kind can learn of another. -/
structure Profile where
  typeName : String
  /-- The scalar type, of the scalar kind only. -/
  scalar? : Option ScalarType
  deriving DecidableEq

/-- The behaviour shared by the values of one type. -/
structure Kind extends Profile where
  /-- Tells this kind object from others of the same type. -/
  ident : Nat
  /-- Validates or replaces data before a node stores it. -/
  filter : ObjectId → HostValue → Except ValueError HostValue :=
    fun _ _ => .error (.unsupported typeName .filter)
  /-- Compares configurations. -/
  sameProperties : Profile → Except ValueError Bool :=
    fun _ => .error (.unsupported typeName .sameProperties)
  /-- The data of an independent copy of a node. -/
  cloneData : ObjectId → Option HostValue → Except ValueError (Option HostValue) :=
    fun _ _ => .error (.unsupported typeName .clone)
  /-- The native representation is primitive or small. -/
  isTrivial : Bool := false
  literal : Option HostValue → Except ValueError Literal :=
    fun _ => .error (.unsupported typeName .literalEncoding)
  /-- Declares the native variables that `extract` fills in. -/
  declare : Binding → Except ValueError Block :=
    fun _ => .error (.unsupported typeName .declare)
  /-- Reads the host slot into the declared variables; jumps to the label on bad data. -/
  extract : Binding → Label → Except ValueError Block :=
    fun _ _ => .error (.unsupported typeName .extract)
  /-- Releases what `extract` acquired, and nothing of the host slot. -/
  cleanup : Binding → Except ValueError Block :=
    fun _ => .error (.unsupported typeName .cleanup)
  /-- Publishes the native value into the host slot. No `cleanup` may follow it, so the
  label it jumps to on failure must not run this binding's. -/
  sync : Binding → Label → Except ValueError Block :=
    fun _ _ => .error (.unsupported typeName .sync)
  compileDependencies : Except ValueError (List String) :=
    .error (.unsupported typeName .compileDependencies)
  headers : Except ValueError (List String) :=
    .error (.unsupported typeName .headers)
  libraries : Except ValueError (List String) :=
    .error (.unsupported typeName .libraries)
  supportCode : Except ValueError String :=
    .error (.unsupported typeName .supportCode)

/-- A kind without hooks. -/
def Kind.bare (ident : Nat) : Kind where
  typeName := "bare"
  scalar? := none
  ident := ident

end HostBridge
