import HostBridge.Binary64.Text

/-!
# Scalar types and literals

The three types that native code holds without a handle, and their constants. A
constant is written as a C expression of its type. The least integer has no constant
of its own, so it is written as a difference.
-/

namespace HostBridge

/-- A type of native scalars. -/
inductive ScalarType where
  | int64
  | float64
  | bool
  deriving DecidableEq, Repr

namespace ScalarType

/-- The name in error reports and in the host's functions. -/
def name : ScalarType → String
  | int64 => "int64"
  | float64 => "float64"
  | bool => "bool"

/-- The name in declarations. -/
def cType : ScalarType → String
  | int64 => "int64_t"
  | float64 => "double"
  | bool => "bool"

end ScalarType

/-- A native scalar. -/
inductive Literal where
  | int (value : Int64)
  | float (value : Binary64)
  | bool (value : Bool)
  deriving DecidableEq, Repr

namespace Literal

def scalarType : Literal → ScalarType
  | int _ => .int64
  | float _ => .float64
  | bool _ => .bool

/-- The scalar a declared variable starts with. -/
def zero : ScalarType → Literal
  | .int64 => int 0
  | .float64 => float .zero
  | .bool => bool false

/-- Equality of the values: zeros of either sign are equal, a NaN equals nothing. -/
def agrees : Literal → Literal → Bool
  | int a, int b => a == b
  | float a, float b => a.sameNumber b
  | bool a, bool b => a == b
  | _, _ => false

/-- The C expression of a floating-point number. -/
def floatCode (x : Binary64) : String :=
  if x.isNaN then "NAN"
  else if x.isInfinite then
    if x.isNegative then "(-INFINITY)" else "INFINITY"
  else x.toText

/-- The C expression of a literal. -/
def toCode : Literal → String
  | int v => if v = Int64.minValue then "(-INT64_MAX - 1)" else "INT64_C(" ++ toString v.toInt ++ ")"
  | float x => floatCode x
  | bool true => "true"
  | bool false => "false"

end Literal

end HostBridge
