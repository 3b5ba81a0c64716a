import HostBridge.Region.Plan

/-!
# Log records

What is worth noting about nodes and regions, as values. Each record has a level and a
text; the records of an operation follow from its outcome.
-/

namespace HostBridge

/-- An event worth noting. -/
inductive Record where
  | bound (role : Role)
  | lacking (value kind : String) (capability : Capability)
  | notCompilable (stem : String)
  | assembled (stem : String) (bindings statements : Nat)
  deriving DecidableEq, Repr

namespace Record

def level : Record → String
  | bound _ => "TRACE"
  | _ => "DEBUG"

/-- The text of a record. A node's identity is shown as `idText`. -/
def text (idText : String) : Record → String
  | bound role =>
    "Value " ++ idText ++ " bound as output " ++ toString role.index ++ " of " ++
      role.owner.typeName ++ " " ++ role.owner.id.toText
  | lacking value kind capability =>
    "Value " ++ value ++ " (" ++ kind ++ ") has no " ++ capability.name ++
      " hook, falling back to interpreted execution"
  | notCompilable stem => "Region " ++ stem ++ " is not compilable"
  | assembled stem bindings statements =>
    "Region " ++ stem ++ " assembled: " ++ toString bindings ++ " bindings, " ++
      toString statements ++ " statements"

/-- Of giving a node a role: noted when an unbound node takes it. -/
def ofRole (before : Node) (requested : Role) : List Record :=
  match before.role, before.setRole requested with
  | none, .ok _ => [bound requested]
  | _, _ => []

/-- Of an obstacle: a missing hook is noted. -/
def ofObstacle : Obstacle → List Record
  | .lacking n capability => [lacking n.name n.kind.typeName capability]
  | _ => []

/-- Of building a region: a missing hook and what follows from it, or the finished code. -/
def ofBuild (p : Plan) : Except Obstacle Region → List Record
  | .ok region => [assembled p.stem p.entries.length region.code.length]
  | .error (.lacking n capability) =>
    [lacking n.name n.kind.typeName capability, notCompilable p.stem]
  | .error _ => []

end Record

end HostBridge
