import HostBridge.Heap.Host
import HostBridge.Native.Block

/-!
# Running native blocks

The machine runs a block on a host, statement by statement, for at most `stepLimit`
steps. It keeps native variables, which come and go with the run, and a trace of the
comments and labels it passed. A faulty statement ends the run; what was done to the
host before, by earlier statements or by the faulty one itself, stays done.
-/

namespace HostBridge

/-- Why a run ends early. -/
inductive Fault where
  | useAfterFree (address : Address)
  | doubleRelease (address : Address)
  | unknownVariable (name : String)
  | unknownLabel (name : String)
  | typeMismatch (var : String)
  | stepLimit
  deriving DecidableEq, Repr

def Fault.message : Fault → String
  | useAfterFree a => "object " ++ toString a ++ " used after it was freed"
  | doubleRelease a => "object " ++ toString a ++ " released more often than acquired"
  | unknownVariable name => "unknown variable or binding " ++ name
  | unknownLabel name => "unknown label " ++ name
  | typeMismatch var => "variable " ++ var ++ " used with the wrong native type"
  | stepLimit => "step limit exceeded"

/-- The content of a native variable. Its type is fixed by its declaration. -/
inductive VarContent where
  | handle (handle : Handle)
  | scalar (value : Literal)
  deriving DecidableEq, Repr

/-- What a variable of a type starts with. -/
def VarType.start : VarType → VarContent
  | handle => .handle none
  | scalar type => .scalar (.zero type)

/-- The state of a run. -/
structure Machine where
  host : Host
  vars : Table VarContent
  trace : Array String
  /-- The position of the next statement. -/
  next : Nat

/-- A fault with the host as it was left. -/
structure Crash where
  fault : Fault
  host : Host

/-- The position of a label: where it is defined last. -/
def Block.position? (l : Label) : Block → Option Nat
  | [] => none
  | s :: rest =>
    match position? l rest with
    | some i => some (i + 1)
    | none => if s.definedLabel? = some l then some 0 else none

namespace Machine

def start (host : Host) : Machine := ⟨host, [], #[], 0⟩

/-- The handle at a place. -/
def readHandle (m : Machine) : Place → Except Fault Handle
  | .native var =>
    match m.vars.get? var with
    | some (.handle handle) => .ok handle
    | some (.scalar _) => .error (.typeMismatch var)
    | none => .error (.unknownVariable var)
  | .host name =>
    match m.host.slots.get? name with
    | some handle => .ok handle
    | none => .error (.unknownVariable name)

/-- Puts a handle at a place, which must exist. Reference counts stay as they are. -/
def writeHandle (m : Machine) (place : Place) (handle : Handle) : Except Fault Machine :=
  match place with
  | .native var =>
    match m.vars.get? var with
    | some (.handle _) => .ok { m with vars := m.vars.put var (.handle handle) }
    | some (.scalar _) => .error (.typeMismatch var)
    | none => .error (.unknownVariable var)
  | .host name =>
    match m.host.slots.get? name with
    | some _ => .ok { m with host := m.host.setSlot name handle }
    | none => .error (.unknownVariable name)

/-- Stores a scalar in a variable of its type. -/
def writeScalar (m : Machine) (var : String) (value : Literal) : Except Fault Machine :=
  match m.vars.get? var with
  | some (.scalar current) =>
    if current.scalarType = value.scalarType then
      .ok { m with vars := m.vars.put var (.scalar value) }
    else .error (.typeMismatch var)
  | some (.handle _) => .error (.typeMismatch var)
  | none => .error (.unknownVariable var)

/-- The scalar of a type in a variable. -/
def readScalar (m : Machine) (var : String) (type : ScalarType) : Except Fault Literal :=
  match m.vars.get? var with
  | some (.scalar value) =>
    if value.scalarType = type then .ok value else .error (.typeMismatch var)
  | some (.handle _) => .error (.typeMismatch var)
  | none => .error (.unknownVariable var)

/-- The object behind a handle is of the scalar type: its value. A null handle and an
object of another type have none; a freed object must not be looked at. -/
def unboxed? (m : Machine) (handle : Handle) (type : ScalarType) : Except Fault (Option Literal) :=
  match handle with
  | none => .ok none
  | some a =>
    if m.host.isLive a then
      .ok (((m.host.value? a).bind HeapValue.scalar?).filter (·.scalarType = type))
    else .error (.useAfterFree a)

/-- Goes on with the next statement. -/
def advance (m : Machine) : Machine :=
  { m with next := m.next + 1 }

/-- Goes on at a label. -/
def jump (m : Machine) (code : Block) (target : Label) : Except Fault Machine :=
  match code.position? target with
  | some i => .ok { m with next := i }
  | none => .error (.unknownLabel target.text)

/-- Notes what was passed. -/
def pass (m : Machine) (entry : String) : Machine :=
  { m with trace := m.trace.push entry }

/-- One reference more to what a handle points at. -/
def acquire (m : Machine) : Handle → Except Fault Machine
  | none => .ok m
  | some a =>
    if m.host.isLive a then .ok { m with host := m.host.addToCount a 1 }
    else .error (.useAfterFree a)

/-- One reference less to what a handle points at. -/
def giveBack (m : Machine) : Handle → Except Fault Machine
  | none => .ok m
  | some a =>
    if m.host.isLive a then .ok { m with host := m.host.addToCount a (-1) }
    else .error (.doubleRelease a)

/-- A fault leaves the host as it is now. -/
def attempt {α : Type} (m : Machine) : Except Fault α → Except Crash α
  | .ok a => .ok a
  | .error fault => .error ⟨fault, m.host⟩

/-- Runs one statement of a block. -/
def step (code : Block) (m : Machine) : Stmt → Except Crash Machine
  | .comment text => .ok (m.pass text).advance
  | .declare var type => .ok { m with vars := m.vars.put var type.start, next := m.next + 1 }
  | .incRef place => do
    let handle ← m.attempt (m.readHandle place)
    let m ← m.attempt (m.acquire handle)
    .ok m.advance
  | .decRef place => do
    let handle ← m.attempt (m.readHandle place)
    let m ← m.attempt (m.giveBack handle)
    .ok m.advance
  | .assign dst src => do
    let handle ← m.attempt (m.readHandle src)
    let m ← m.attempt (m.writeHandle dst handle)
    .ok m.advance
  | .clear place => do
    let m ← m.attempt (m.writeHandle place none)
    .ok m.advance
  | .unbox dst src type fail => do
    let handle ← m.attempt (m.readHandle src)
    match ← m.attempt (m.unboxed? handle type) with
    | some value =>
      let m ← m.attempt (m.writeScalar dst value)
      .ok m.advance
    | none =>
      let m := { m with host := m.host.report (dst ++ ": expected " ++ type.name) }
      m.attempt (m.jump code fail)
  | .box dst src type => do
    let value ← m.attempt (m.readScalar src type)
    if m.host.boxingFails then
      let m := { m with host := m.host.report (src ++ ": box failed") }
      let m ← m.attempt (m.writeHandle dst none)
      .ok m.advance
    else
      let a := m.host.objects.size
      let m := { m with host := m.host.allocate (.scalar value) }
      let m ← m.attempt (m.writeHandle dst (some a))
      .ok m.advance
  | .gotoIfNull place target => do
    match ← m.attempt (m.readHandle place) with
    | none => m.attempt (m.jump code target)
    | some _ => .ok m.advance
  | .store var value => do
    let m ← m.attempt (m.writeScalar var value)
    .ok m.advance
  | .label l => .ok (m.pass (l.text ++ ":")).advance
  | .goto target => m.attempt (m.jump code target)

/-- Runs until the end of the block, for at most `fuel` steps. -/
def runFor (code : Block) : Nat → Machine → Except Crash Machine
  | fuel, m =>
    match code[m.next]? with
    | none => .ok m
    | some s =>
      match fuel with
      | 0 => .error ⟨.stepLimit, m.host⟩
      | fuel + 1 =>
        match m.step code s with
        | .ok m => runFor code fuel m
        | .error crash => .error crash

end Machine

/-- How many steps a run may take. -/
def stepLimit : Nat := 100000

/-- Runs a block on a host: the trace or the fault that ended the run, and the host as the
run left it. -/
def Host.run (h : Host) (code : Block) : Except Fault (Array String) × Host :=
  match (Machine.start h).runFor code stepLimit with
  | .ok m => (.ok m.trace, m.host)
  | .error crash => (.error crash.fault, crash.host)

end HostBridge
