import HostBridge.Native.Literal
import HostBridge.Native.Name

/-!
# Native statements

The statements that move values between host slots and native variables, and blocks of
them. A handle may be null. Copying a handle leaves reference counts alone; only
`incRef`, `decRef` and `box` change the host's heap.
-/

namespace HostBridge

/-- Where a handle is kept. -/
inductive Place where
  /-- A native variable. -/
  | native (var : String)
  /-- The host-visible slot of a binding. -/
  | host (binding : String)
  deriving DecidableEq, Repr

def Binding.native (b : Binding) : Place := .native b.text

def Binding.host (b : Binding) : Place := .host b.text

/-- The type of a native variable. -/
inductive VarType where
  | handle
  | scalar (type : ScalarType)
  deriving DecidableEq, Repr

/-- One native statement. -/
inductive Stmt where
  | comment (text : String)
  /-- A handle starts out null, a scalar zero. -/
  | declare (var : String) (type : VarType)
  /-- One reference more, unless the handle is null. -/
  | incRef (place : Place)
  /-- One reference less, unless the handle is null. -/
  | decRef (place : Place)
  | assign (dst src : Place)
  | clear (place : Place)
  /-- Reads the scalar out of an object of its type; any other handle is reported to the
  host and jumps to `fail`. -/
  | unbox (dst : String) (src : Place) (type : ScalarType) (fail : Label)
  /-- Puts a new object into `dst`, which owns it. Where the host cannot make one, it
  reports that and `dst` becomes null. -/
  | box (dst : Place) (src : String) (type : ScalarType)
  | gotoIfNull (place : Place) (target : Label)
  | store (var : String) (value : Literal)
  | label (label : Label)
  | goto (target : Label)
  deriving DecidableEq

/-- Statements in order. -/
abbrev Block := List Stmt

namespace Stmt

/-- The label a statement defines. -/
def definedLabel? : Stmt → Option Label
  | label l => some l
  | _ => none

/-- Equality as code: constants are compared as numbers, all else as text. -/
def agrees : Stmt → Stmt → Bool
  | store v a, store w b => v == w && a.agrees b
  | s, t => s == t

end Stmt

namespace Block

/-- The labels a block defines, in order. -/
def labels (b : Block) : List Label :=
  b.filterMap Stmt.definedLabel?

@[simp] theorem labels_append (b c : Block) : labels (b ++ c) = labels b ++ labels c := by
  simp [labels]

/-- Statement for statement the same code. -/
def agrees : Block → Block → Bool
  | [], [] => true
  | s :: b, t :: c => s.agrees t && agrees b c
  | _, _ => false

/-- The first label that was defined before. -/
def firstRepeated? (seen : List Label) : List Label → Option Label
  | [] => none
  | l :: rest => if l ∈ seen then some l else firstRepeated? (l :: seen) rest

/-- The first label that a block defines a second time. -/
def clash? (b : Block) : Option Label :=
  firstRepeated? [] (labels b)

end Block

end HostBridge
