import HostBridge.Native.Sketch
import HostBridge.Value.Kind

/-!
# Kinds by script

A script says of each hook how a kind answers to it, so that a kind with any mixture of
hooks can be written down: a hook is missing, is refused with a reason, or does one of a few
things. Code hooks give sketches, in which `$b` and `$fail` are filled in at each call.
-/

namespace HostBridge

/-- How a hook answers. -/
inductive Reply (α : Type) where
  | missing
  | rejected (reason : String)
  | invalid (text : String)
  | given (answer : α)

/-- The answer of a hook of a kind of that type name. -/
def Reply.answer {α : Type} (typeName : String) (capability : Capability) :
    Reply α → Except ValueError α
  | missing => .error (.unsupported typeName capability)
  | rejected reason => .error (.validation typeName reason)
  | invalid text => .error (.invalidArgument (.ofKind text))
  | given a => .ok a

inductive FilterRule where
  /-- Replaces an even integer by a new object, and accepts nothing else. -/
  | even
  /-- Claims that another hook is missing. -/
  | misleading
  | unchanged
  deriving DecidableEq, Repr

inductive SameRule where
  | always (answer : Bool)
  | byTypeName
  deriving DecidableEq, Repr

inductive CloneRule where
  /-- The copy holds the same object. -/
  | share
  /-- The copy holds nothing. -/
  | drop
  | duplicate
  deriving DecidableEq, Repr

/-- The answers of a kind's hooks. -/
structure Script where
  typeName : String
  filter : Reply FilterRule
  same : Reply SameRule
  clone : Reply CloneRule
  literal : Reply Literal
  isTrivial : Bool
  declare : Reply (List Sketch)
  extract : Reply (List Sketch)
  cleanup : Reply (List Sketch)
  sync : Reply (List Sketch)
  compileDependencies : Reply (List String)
  headers : Reply (List String)
  libraries : Reply (List String)
  supportCode : Reply String

def FilterRule.apply (typeName : String) (fresh : ObjectId) (value : HostValue) :
    FilterRule → Except ValueError HostValue
  | even =>
    match value.plain? with
    | some (.i64 n) =>
      if n.toInt % 2 = 0 then .ok (.plain fresh (.i64 n))
      else .error (.validation typeName "expected an even i64")
    | _ => .error (.validation typeName "expected an even i64")
  | misleading => .error (.unsupported typeName .clone)
  | unchanged => .ok value

def CloneRule.apply (fresh : ObjectId) (data : Option HostValue) : CloneRule → Option HostValue
  | share => data
  | drop => none
  | duplicate => data.map (HostValue.duplicate fresh)

/-- The code of a hook at a call. -/
def Reply.code (typeName : String) (capability : Capability) (given : StandIns)
    (reply : Reply (List Sketch)) : Except ValueError Block := do
  Sketch.resolveAll given (← reply.answer typeName capability)

/-- The kind that answers as a script says. -/
def Script.toKind (s : Script) (ident : Nat) : Kind where
  typeName := s.typeName
  scalar? := none
  ident := ident
  filter := fun fresh value => do
    (← s.filter.answer s.typeName .filter).apply s.typeName fresh value
  sameProperties := fun other => do
    match ← s.same.answer s.typeName .sameProperties with
    | .always answer => .ok answer
    | .byTypeName => .ok (other.typeName == s.typeName)
  cloneData := fun fresh data => do
    .ok ((← s.clone.answer s.typeName .clone).apply fresh data)
  isTrivial := s.isTrivial
  literal := fun _ => s.literal.answer s.typeName .literalEncoding
  declare := fun b => s.declare.code s.typeName .declare ⟨some b.text, none⟩
  extract := fun b fail => s.extract.code s.typeName .extract ⟨some b.text, some fail⟩
  cleanup := fun b => s.cleanup.code s.typeName .cleanup ⟨some b.text, none⟩
  sync := fun b fail => s.sync.code s.typeName .sync ⟨some b.text, some fail⟩
  compileDependencies := s.compileDependencies.answer s.typeName .compileDependencies
  headers := s.headers.answer s.typeName .headers
  libraries := s.libraries.answer s.typeName .libraries
  supportCode := s.supportCode.answer s.typeName .supportCode

end HostBridge
