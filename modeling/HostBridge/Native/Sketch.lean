import HostBridge.Native.Block

/-!
# Statements as written

A sketch is a statement whose labels are still plain text. In it `$b` stands for the name
of the binding the code is for and `$fail` for the label to jump to on failure, where the
place of use provides them. Resolving a sketch fills both in and checks its labels.
-/

namespace HostBridge

/-- A statement with unchecked labels. -/
inductive Sketch where
  | comment (text : String)
  | declare (var : String) (type : VarType)
  | incRef (place : Place)
  | decRef (place : Place)
  | assign (dst src : Place)
  | clear (place : Place)
  | unbox (dst : String) (src : Place) (type : ScalarType) (fail : String)
  | box (dst : Place) (src : String) (type : ScalarType)
  | gotoIfNull (place : Place) (target : String)
  | store (var : String) (value : Literal)
  | label (label : String)
  | goto (target : String)
  deriving DecidableEq

/-- What the two stand-ins mean at a place of use; one that is absent is no stand-in. -/
structure StandIns where
  binding? : Option String
  fail? : Option Label

namespace StandIns

/-- Nothing is filled in. -/
def none : StandIns := ⟨.none, .none⟩

/-- A text, which is the binding's name if it is `$b`. -/
def text (given : StandIns) (s : String) : String :=
  if s = "$b" then given.binding?.getD s else s

def place (given : StandIns) : Place → Place
  | .native var => .native (given.text var)
  | .host binding => .host (given.text binding)

/-- A label, which is the given one if the text is `$fail`. -/
def label (given : StandIns) (s : String) : Except ValueError Label :=
  match s, given.fail? with
  | "$fail", some l => .ok l
  | s, _ => Label.ofText (given.text s)

end StandIns

/-- The statement a sketch stands for. -/
def Sketch.resolve (given : StandIns) : Sketch → Except ValueError Stmt
  | comment text => .ok (.comment (given.text text))
  | declare var type => .ok (.declare (given.text var) type)
  | incRef place => .ok (.incRef (given.place place))
  | decRef place => .ok (.decRef (given.place place))
  | assign dst src => .ok (.assign (given.place dst) (given.place src))
  | clear place => .ok (.clear (given.place place))
  | unbox dst src type fail =>
    (given.label fail).map (.unbox (given.text dst) (given.place src) type)
  | box dst src type => .ok (.box (given.place dst) (given.text src) type)
  | gotoIfNull place target => (given.label target).map (.gotoIfNull (given.place place))
  | store var value => .ok (.store (given.text var) value)
  | label l => (given.label l).map .label
  | goto target => (given.label target).map .goto

/-- Resolves sketches in order; the first label that is no identifier is the error. -/
def Sketch.resolveAll (given : StandIns) (sketches : List Sketch) : Except ValueError Block :=
  sketches.mapM (Sketch.resolve given)

end HostBridge
