import HostBridge.Error

/-!
# Names in generated code

A binding names a value in generated code: its native variable has that name and its
host slot the name after a common stem. A label is a jump target. Both are C
identifiers, and carry the proof of it.
-/

namespace HostBridge

def isIdentifierStart (c : Char) : Bool :=
  c.isAlpha || c == '_'

def isIdentifierRest (c : Char) : Bool :=
  c.isAlphanum || c == '_'

/-- The text matches `[A-Za-z_][A-Za-z0-9_]*`. -/
def isIdentifier (s : String) : Bool :=
  match s.toList with
  | [] => false
  | first :: rest => isIdentifierStart first && rest.all isIdentifierRest

/-- The name under which a value is bound in generated code. -/
structure Binding where
  text : String
  isIdentifier_text : isIdentifier text = true
  deriving DecidableEq

/-- A jump target in generated code. -/
structure Label where
  text : String
  isIdentifier_text : isIdentifier text = true
  deriving DecidableEq

/-- The binding of that name, if the name is an identifier. -/
def Binding.ofText (s : String) : Except ValueError Binding :=
  if h : isIdentifier s = true then .ok ⟨s, h⟩
  else .error (.invalidArgument (.bindingNotIdentifier s))

/-- The label of that name, if the name is an identifier. -/
def Label.ofText (s : String) : Except ValueError Label :=
  if h : isIdentifier s = true then .ok ⟨s, h⟩
  else .error (.invalidArgument (.labelNotIdentifier s))

end HostBridge
