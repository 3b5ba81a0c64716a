import HostBridge.Yaml.Plain

/-!
# Nodes

What a document holds: scalars, sequences and mappings. A plain scalar keeps its characters,
since as a key it is a name and as a value it may be null, a truth value or a number.
-/

namespace HostBridge.Yaml

inductive Node where
  | plain (text : String)
  /-- A scalar in quotes, or a literal block. -/
  | text (value : String)
  | sequence (items : List Node)
  | mapping (fields : List (Node × Node))

/-- An entry of a mapping: its key and its value. -/
abbrev Field := Node × Node

namespace Node

/-- What stands where nothing is written. -/
def absent : Node := plain ""

/-- The value of a scalar. -/
def value? : Node → Option Value
  | plain s => some (.ofPlain s.toList)
  | text s => some (.text s)
  | _ => none

/-- The name that a scalar is as a key. -/
def name? : Node → Option String
  | plain s | text s => some s
  | _ => none

/-- As a key, the scalar says that the fields of its value are to be taken in. -/
def isMerge : Node → Bool
  | plain s => s == "<<"
  | _ => false

/-- A scalar without quotes, whose end shows only by what follows. -/
def isPlain : Node → Bool
  | plain _ => true
  | _ => false

end Node

end HostBridge.Yaml
