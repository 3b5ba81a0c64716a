import HostBridge.Binary64.Integer
import HostBridge.Value.Kind

/-!
# The kind of scalars

A scalar is read out of its object into a native variable, which holds no reference. To
publish it, the slot's reference is given back first and a new object boxed into the
slot; where that fails the slot is null and no longer refers to the released object.
-/

namespace HostBridge.Kind

/-- The literal an object of exactly that scalar type holds. -/
def scalarLiteral? (type : ScalarType) (value : HostValue) : Option Literal :=
  match type, value.plain? with
  | .int64, some (.i64 v) => some (.int v)
  | .float64, some (.f64 v) => some (.float v)
  | .bool, some (.bool v) => some (.bool v)
  | _, _ => none

/-- The type name of every scalar kind. -/
def scalarTypeName : String := "scalar_value"

/-- Accepts objects of the scalar type. Where that is `float64` an integer is accepted as
well, and replaced by the number equal to it if there is one. -/
def scalarFilter (type : ScalarType) (fresh : ObjectId) (value : HostValue) :
    Except ValueError HostValue :=
  if (scalarLiteral? type value).isSome then .ok value
  else
    match type, value.plain? with
    | .float64, some (.i64 n) =>
      match Binary64.ofInt? n with
      | some x => .ok (.plain fresh (.f64 x))
      | none =>
        .error (.validation scalarTypeName
          (toString n.toInt ++ " has no exact float64 representation"))
    | _, _ =>
      .error (.validation scalarTypeName ("expected " ++ type.name ++ ", got " ++ value.toText))

/-- The literal of the data that is held. -/
def scalarEncoding (type : ScalarType) : Option HostValue → Except ValueError Literal
  | none => .error (.validation scalarTypeName "no data to encode as a literal")
  | some value =>
    match scalarLiteral? type value with
    | some literal => .ok literal
    | none =>
      .error (.validation scalarTypeName
        (value.toText ++ " is not a " ++ type.name ++ " literal"))

/-- A primitive value in a native scalar variable. The headers and libraries do not depend
on the scalar type, so one value per type name speaks for all. -/
def scalar (type : ScalarType) (ident : Nat) : Kind where
  typeName := scalarTypeName
  scalar? := some type
  ident := ident
  filter := scalarFilter type
  sameProperties := fun other => .ok (other.scalar? == some type)
  cloneData := fun fresh data => .ok (data.map (HostValue.duplicate fresh))
  isTrivial := true
  literal := scalarEncoding type
  declare := fun b => .ok [.declare b.text (.scalar type)]
  extract := fun b fail => .ok [.unbox b.text b.host type fail]
  cleanup := fun _ => .ok []
  sync := fun b fail => .ok [.decRef b.host, .box b.host b.text type, .gotoIfNull b.host fail]
  headers := .ok ["stdint.h", "stdbool.h", "math.h"]
  libraries := .ok ["m"]

end HostBridge.Kind
