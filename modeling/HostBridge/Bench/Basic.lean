import HostBridge.Bench.Script
import HostBridge.Heap.Machine
import HostBridge.Region.Record
import HostBridge.Value.Kind.Handle
import HostBridge.Value.Kind.Scalar

/-!
# A bench

A bench holds objects, operations and nodes under names, and one host, so that sequences of
operations on them can be tried. An operation that is refused changes nothing, except where
it is said to have had an effect before. What is noted in the log is kept until it is taken.
-/

namespace HostBridge

/-- A node on the bench. A scripted kind also counts how often its filter is consulted. -/
structure BenchNode where
  node : Node
  isScripted : Bool

structure Bench where
  objects : Table HostValue
  operations : Table Operation
  nodes : Table BenchNode
  host : Host
  world : World
  /-- The latest record first. -/
  log : List Record

/-- Why an operation on the bench has no result. -/
inductive Refusal where
  | noSuch (name : String)
  | badToken
  | value (error : ValueError)
  /-- A region would define a label twice. -/
  | clash (label : Label)
  /-- A freed object cannot be shared. -/
  | freedObject

/-- What a refusal says, if it says more than that there is no result. -/
def Refusal.message? : Refusal → Option String
  | noSuch name => some name
  | badToken => none
  | value e => some e.message
  | clash l => some ("Duplicate label " ++ l.text ++ " in region")
  | freedObject => some "sharing a freed object"

/-- An operation on the bench. What it did before it was refused stays done. -/
abbrev BenchM := ExceptT Refusal (StateM Bench)

namespace Bench

def empty : Bench := ⟨[], [], [], .empty, .start, []⟩

/-- The records since the log was last taken, oldest first, and the bench without them. -/
def takeLog (b : Bench) : List Record × Bench :=
  (b.log.reverse, { b with log := [] })

/-- How often a node's filter was consulted, if its kind counts that. -/
def filterCalls (b : Bench) (n : BenchNode) : Option Nat :=
  if n.isScripted then some (b.world.filterCalls.count n.node.kind.ident) else none

/-- The entry of a table, which must exist. -/
def find {α : Type} (name : String) : Option α → BenchM α
  | some a => pure a
  | none => throw (.noSuch name)

def object (name : String) : BenchM HostValue := do
  find name ((← get).objects.get? name)

def operation (name : String) : BenchM Operation := do
  find name ((← get).operations.get? name)

def node (name : String) : BenchM BenchNode := do
  find name ((← get).nodes.get? name)

/-- A role given by an operation's name and an index. -/
def role (r : String × Nat) : BenchM Role := do
  return ⟨← operation r.1, r.2⟩

/-- The outcome of an operation that may be refused. -/
def require {α : Type} : Except ValueError α → BenchM α
  | .ok a => pure a
  | .error e => throw (.value e)

/-- Runs an operation on the surroundings of nodes. -/
def inWorld {α : Type} (f : World → α × World) : BenchM α :=
  modifyGet fun b =>
    let (a, w) := f b.world
    (a, { b with world := w })

/-- An identity that is not in use. -/
def freshIdentity : BenchM Nat :=
  inWorld fun w => (w.next, w.advance)

def note (records : List Record) : BenchM Unit :=
  modify fun b => { b with log := records.reverse ++ b.log }

def putObject (name : String) (value : HostValue) : BenchM Unit :=
  modify fun b => { b with objects := b.objects.put name value }

def putNode (name : String) (n : BenchNode) : BenchM Unit :=
  modify fun b => { b with nodes := b.nodes.put name n }

end Bench

end HostBridge
