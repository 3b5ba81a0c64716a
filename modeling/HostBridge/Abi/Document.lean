import HostBridge.Abi.Basic
import HostBridge.Text.LineEnding
import HostBridge.Yaml.Document
import HostBridge.Yaml.Writer

/-!
# An `Abi` as a document

An `Abi` is written as a mapping with its ten fields in a fixed order. A document that is
read may leave fields out, which then keep their standard values, and may hold further
fields, which do not count. What was read is checked before it is handed out.

The fields are taken in order, and then none may be there twice. A sequence or a mapping
where a scalar is needed, or a key that takes in the fields of its value, is a `Setback`:
the document is then taken as a table, in which the last of several values counts.
-/

namespace HostBridge

/-- Why no `Abi` can be read. -/
inductive DocumentFault where
  /-- The bytes are no text. -/
  | notText
  /-- The text is no mapping, or a field has a value of the wrong type or two values. -/
  | malformed
  | invalid (fault : AbiFault)
  deriving DecidableEq, Repr

/-- Why an `Abi` cannot be written. -/
inductive WriteFault where
  | indentTooGreat (indent : Nat)
  deriving DecidableEq, Repr

def WriteFault.message : WriteFault → String
  | indentTooGreat n =>
    "Failed to serialize host ABI to YAML: Serialize(\"u64 value " ++ toString n ++
      " exceeds i64::MAX and cannot be represented losslessly\")"

/-- The value of a field that is set from outside. -/
inductive FieldValue where
  | text (value : String)
  | natural (value : Nat)
  /-- A value of another type. -/
  | other
  deriving DecidableEq, Repr

/-- The greatest indentation that can be read. -/
def greatestIndent : Nat := 0xFFFFFFFFFFFFFFFF

/-- The greatest indentation that can be written. -/
def greatestWrittenIndent : Nat := 0x7FFFFFFFFFFFFFFF

/-- Numbers are natural if they are so in value, whichever way they are written. The greatest
indentation is read as a number that rounds it up by one, and is meant by that number. -/
def FieldValue.ofYaml : Yaml.Value → FieldValue
  | .text value => text value
  | .integer (.ofNat n) => natural n
  | .real x =>
    match x.nat? with
    | some n => natural (if n = greatestIndent + 1 then greatestIndent else n)
    | none => other
  | _ => other

namespace Abi

/-- The names of the fields, in their order. -/
def fieldNames : List String :=
  ["handle_type", "null", "xincref", "xdecref", "host_prefix", "check_prefix", "unbox_prefix",
    "box_prefix", "type_error", "indent_width"]

/-- Sets a field. Fields of other names do not count; a value must be of its field's
type. -/
def set (a : Abi) (name : String) (value : FieldValue) : Option Abi :=
  match name, value with
  | "handle_type", .text s => some { a with handleType := s }
  | "null", .text s => some { a with null := s }
  | "xincref", .text s => some { a with incRef := s }
  | "xdecref", .text s => some { a with decRef := s }
  | "host_prefix", .text s => some { a with slotPrefix := s }
  | "check_prefix", .text s => some { a with checkPrefix := s }
  | "unbox_prefix", .text s => some { a with unboxPrefix := s }
  | "box_prefix", .text s => some { a with boxPrefix := s }
  | "type_error", .text s => some { a with typeError := s }
  | "indent_width", .natural n => if n ≤ greatestIndent then some { a with indentWidth := n } else none
  | name, _ => if name ∈ fieldNames then none else some a

/-- Sets fields one after the other. -/
def setAll (a : Abi) : List (String × FieldValue) → Option Abi
  | [] => some a
  | (name, value) :: rest => do
    let a ← a.set name value
    a.setAll rest

/-! ## Reading -/

/-- Why fields cannot be taken in order. -/
inductive Setback where
  /-- A field is there twice, or its value is a scalar of the wrong type. -/
  | refused
  /-- A key or a field's value is no scalar, or a key takes in fields. -/
  | needsTable
  deriving DecidableEq, Repr

/-- Sets the fields of a document in order; `seen` are those that are set. -/
def takeFields (a : Abi) (seen : List String) : List Yaml.Field → Except Setback Abi
  | [] => .ok a
  | (key, value) :: rest =>
    match key.name? with
    | none => .error .needsTable
    | some name =>
      if key.isMerge then .error .needsTable
      else if name ∉ fieldNames then a.takeFields seen rest
      else if name ∈ seen then .error .refused
      else
        match value.value? with
        | none => .error .needsTable
        | some v =>
          match a.set name (.ofYaml v) with
          | none => .error .refused
          | some a => a.takeFields (name :: seen) rest

/-- A document's fields by name, those that count before others of their name. -/
abbrev FieldTable := List (String × Yaml.Node)

mutual

/-- The table of a mapping's fields: its own, the last first, and behind them those that it
takes in. Every key must be a scalar. -/
def table? : List Yaml.Field → Option (FieldTable × FieldTable)
  | [] => some ([], [])
  | (key, value) :: rest => do
    let (own, taken) ← table? rest
    if key.isMerge then some (own, (← takenIn? value) ++ taken)
    else some (own ++ [(← key.name?, value)], taken)

/-- The fields that a mapping takes in from a value: those of a mapping, or of several. -/
def takenIn? : Yaml.Node → Option FieldTable
  | .mapping fields => (table? fields).map fun (own, taken) => own ++ taken
  | .sequence items => takenInAll? items
  | _ => none

def takenInAll? : List Yaml.Node → Option FieldTable
  | [] => some []
  | item :: rest => do
    let .mapping fields := item | none
    let (own, taken) ← table? fields
    some (own ++ taken ++ (← takenInAll? rest))

end

/-- Sets the fields that a table has. -/
def ofTable? (table : FieldTable) : Option Abi :=
  fieldNames.foldlM (fun a name =>
    match table.lookup name with
    | none => some a
    | some value => do a.set name (.ofYaml (← value.value?))) standard

/-- The `Abi` that the fields of a document give, before it is checked. -/
def ofFields? (fields : List Yaml.Field) : Option Abi :=
  match standard.takeFields [] fields with
  | .ok a => some a
  | .error .refused => none
  | .error .needsTable => do
    let (own, taken) ← table? fields
    ofTable? (own ++ taken)

/-- Reads an `Abi` and checks it. -/
def ofYamlChars (document : List Char) : Except DocumentFault Abi :=
  match Yaml.document? document with
  | some (.mapping fields) =>
    match ofFields? fields with
    | none => .error .malformed
    | some a =>
      match a.fault? with
      | some fault => .error (.invalid fault)
      | none => .ok a
  | _ => .error .malformed

/-- `ofYamlChars` on strings. -/
def ofYaml (document : String) : Except DocumentFault Abi :=
  ofYamlChars document.toList

/-- Reads an `Abi` from the bytes of a file. -/
def ofFile (bytes : ByteArray) : Except DocumentFault Abi :=
  match String.fromUTF8? bytes with
  | none => .error .notText
  | some document => ofYaml document

/-! ## Writing -/

/-- The fields with text, in their order. The name of the field `null` is quoted, since
without quotes it would be no text. -/
def textFields (a : Abi) : List (String × String) :=
  [("handle_type", a.handleType), ("\"null\"", a.null), ("xincref", a.incRef),
    ("xdecref", a.decRef), ("host_prefix", a.slotPrefix), ("check_prefix", a.checkPrefix),
    ("unbox_prefix", a.unboxPrefix), ("box_prefix", a.boxPrefix), ("type_error", a.typeError)]

/-- A field and its value on a line, or more lines if the value is a block. -/
def fieldLine (name : String) (value : List Char) : List Char :=
  name.toList ++ ':' :: ' ' :: value ++ ['\n']

/-- The document before its line endings are made uniform. -/
def rawYaml (a : Abi) : List Char :=
  (a.textFields.flatMap fun field => fieldLine field.1 (Yaml.writeText field.2.toList)) ++
    fieldLine "indent_width" (Nat.toDigits 10 a.indentWidth)

/-- The document of an `Abi`. -/
def toYamlChars (a : Abi) : Except WriteFault (List Char) :=
  if a.indentWidth ≤ greatestWrittenIndent then .ok (Text.normalizeChars a.rawYaml)
  else .error (.indentTooGreat a.indentWidth)

/-- `toYamlChars` as a string. -/
def toYaml (a : Abi) : Except WriteFault String :=
  a.toYamlChars.map String.ofList

/-- Reading what is written gives the same `Abi` back. -/
def roundTrips (a : Abi) : Bool :=
  match a.toYaml with
  | .error _ => false
  | .ok document =>
    match ofYaml document with
    | .ok b => a == b
    | .error _ => false

end Abi

end HostBridge
