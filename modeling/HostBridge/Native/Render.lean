import HostBridge.Abi.Basic
import HostBridge.Native.Block
import HostBridge.Text.Search

/-!
# Native statements as C code

Each statement becomes one or more lines of C in the symbols of an `Abi`. The text of a
comment is written so that it does not hold the characters which end a comment.
-/

namespace HostBridge

def Place.render (abi : Abi) : Place → String
  | native var => var
  | host binding => abi.slotName binding

/-- A comment's text with an asterisk and a following slash set apart. -/
def commentText (text : String) : String :=
  String.ofList (Text.splitCommentEnd text.toList)

/-- One step of indentation. -/
def Abi.indent (abi : Abi) : String :=
  String.ofList (List.replicate abi.indentWidth ' ')

/-- The lines of one statement, without line ends. -/
def Stmt.lines (abi : Abi) : Stmt → List String
  | comment text => ["/* " ++ commentText text ++ " */"]
  | declare var .handle => [abi.handleType ++ " " ++ var ++ " = " ++ abi.null ++ ";"]
  | declare var (.scalar type) => [type.cType ++ " " ++ var ++ " = 0;"]
  | incRef place => [abi.incRef ++ "(" ++ place.render abi ++ ");"]
  | decRef place => [abi.decRef ++ "(" ++ place.render abi ++ ");"]
  | assign dst src => [dst.render abi ++ " = " ++ src.render abi ++ ";"]
  | clear place => [place.render abi ++ " = " ++ abi.null ++ ";"]
  | unbox dst src type fail =>
    ["if (!" ++ abi.checkPrefix ++ type.name ++ "(" ++ src.render abi ++ ")) \x7b",
      abi.indent ++ abi.typeError ++ "(\"" ++ dst ++ "\", \"" ++ type.name ++ "\");",
      abi.indent ++ "goto " ++ fail.text ++ ";",
      "\x7d",
      dst ++ " = " ++ abi.unboxPrefix ++ type.name ++ "(" ++ src.render abi ++ ");"]
  | box dst src type =>
    [dst.render abi ++ " = " ++ abi.boxPrefix ++ type.name ++ "(" ++ src ++ ");"]
  | gotoIfNull place target =>
    ["if (" ++ place.render abi ++ " == " ++ abi.null ++ ") \x7b",
      abi.indent ++ "goto " ++ target.text ++ ";",
      "\x7d"]
  | store var value => [var ++ " = " ++ value.toCode ++ ";"]
  | label l => [l.text ++ ":;"]
  | goto target => ["goto " ++ target.text ++ ";"]

/-- The code of one statement. -/
def Stmt.render (abi : Abi) (s : Stmt) : String :=
  String.join ((s.lines abi).map (· ++ "\n"))

/-- The code of a block. -/
def Block.render (abi : Abi) (b : Block) : String :=
  String.join (b.map (Stmt.render abi))

end HostBridge
