import HostBridge.Native.Render
import HostBridge.Proofs.Run.Control
import Mathlib.Data.List.Chain

/-!
# What the words of rendered code stand for

Rendered code is a sequence of pieces: places, labels and symbols of the host, and plain text between
them (`Block.render_eq`), which keeps them apart as words (`Block.pieces_apart`). So what the code of a
block names can be asked of the block: `Block.names` for native variables and host slots,
`Block.labelsNamed` for labels, and `Block.symbols` for the host's symbols, which are all among
`Abi.hostSymbols`.
-/

namespace HostBridge

/-- A piece of rendered code. -/
inductive Piece where
  /-- Keywords, punctuation, types, constants and texts. -/
  | plain (text : String)
  /-- A native variable or a host slot. -/
  | place (place : Place)
  | label (label : Label)
  /-- A symbol of the host. -/
  | symbol (name : String)

namespace Piece

def text (abi : Abi) : Piece → String
  | plain text => text
  | place p => p.render abi
  | label l => l.text
  | symbol name => name

/-- The name of a native variable or a host slot. -/
def name? (abi : Abi) : Piece → Option String
  | place p => some (p.render abi)
  | _ => none

def label? : Piece → Option Label
  | label l => some l
  | _ => none

def symbol? : Piece → Option String
  | symbol name => some name
  | _ => none

/-- It is no plain text. -/
def isWord : Piece → Bool
  | plain _ => false
  | _ => true

/-- It is plain text that does not go on with a word before it. -/
def opens : Piece → Bool
  | plain text => text.toList.head?.any (!isIdentifierRest ·)
  | _ => false

/-- It is plain text that a word behind it does not go on with. -/
def closes : Piece → Bool
  | plain text => text.toList.getLast?.any (!isIdentifierRest ·)
  | _ => false

/-- Between words there is plain text that tells them apart. -/
def Apart (a b : Piece) : Prop :=
  (a.isWord = true → b.opens = true) ∧ (b.isWord = true → a.closes = true)

end Piece

/-- The pieces of a statement's code. The name in a report to the host is plain text there. -/
def Stmt.pieces (abi : Abi) : Stmt → List Piece
  | comment text => [.plain ("/* " ++ commentText text ++ " */\n")]
  | declare var .handle =>
    [.plain (abi.handleType ++ " "), .place (.native var), .plain " = ", .symbol abi.null,
      .plain ";\n"]
  | declare var (.scalar type) =>
    [.plain (type.cType ++ " "), .place (.native var), .plain " = 0;\n"]
  | incRef place => [.symbol abi.incRef, .plain "(", .place place, .plain ");\n"]
  | decRef place => [.symbol abi.decRef, .plain "(", .place place, .plain ");\n"]
  | assign dst src => [.place dst, .plain " = ", .place src, .plain ";\n"]
  | clear place => [.place place, .plain " = ", .symbol abi.null, .plain ";\n"]
  | unbox dst src type fail =>
    [.plain "if (!", .symbol (abi.checkPrefix ++ type.name), .plain "(", .place src,
      .plain (")) \x7b\n" ++ abi.indent), .symbol abi.typeError,
      .plain ("(\"" ++ dst ++ "\", \"" ++ type.name ++ "\");\n" ++ abi.indent ++ "goto "),
      .label fail, .plain ";\n\x7d\n",
      .place (.native dst), .plain " = ", .symbol (abi.unboxPrefix ++ type.name), .plain "(",
      .place src, .plain ");\n"]
  | box dst src type =>
    [.place dst, .plain " = ", .symbol (abi.boxPrefix ++ type.name), .plain "(",
      .place (.native src), .plain ");\n"]
  | gotoIfNull place target =>
    [.plain "if (", .place place, .plain " == ", .symbol abi.null,
      .plain (") \x7b\n" ++ abi.indent ++ "goto "), .label target, .plain ";\n\x7d\n"]
  | store var value => [.place (.native var), .plain (" = " ++ value.toCode ++ ";\n")]
  | label l => [.label l, .plain ":;\n"]
  | goto target => [.plain "goto ", .label target, .plain ";\n"]

/-- The code of a statement is that of its pieces, line by line. -/
theorem Stmt.render_eq (abi : Abi) (s : Stmt) :
    s.render abi = String.join ((s.pieces abi).map (Piece.text abi)) := by
  cases s with
  | declare var type =>
    cases type <;> simp [render, lines, pieces, Piece.text, Place.render, ← String.toList_inj]
  | _ => simp [render, lines, pieces, Piece.text, Place.render, ← String.toList_inj]

namespace Block

def pieces (abi : Abi) (b : Block) : List Piece :=
  b.flatMap (Stmt.pieces abi)

/-- The code of a block is that of its pieces. -/
theorem render_eq (abi : Abi) (b : Block) :
    b.render abi = String.join ((b.pieces abi).map (Piece.text abi)) := by
  unfold render pieces
  induction b with
  | nil => rfl
  | cons s b ih => simp [Stmt.render_eq, ih]

/-! ## What is named -/

/-- The names of native variables and host slots in the code of a block. -/
def names (abi : Abi) (b : Block) : List String :=
  (b.pieces abi).filterMap (Piece.name? abi)

/-- The labels in the code of a block, be they defined or jumped to. -/
def labelsNamed (abi : Abi) (b : Block) : List Label :=
  (b.pieces abi).filterMap Piece.label?

/-- The symbols of the host in the code of a block. -/
def symbols (abi : Abi) (b : Block) : List String :=
  (b.pieces abi).filterMap Piece.symbol?

@[simp] theorem names_nil (abi : Abi) : names abi [] = [] := rfl

theorem names_cons (abi : Abi) (s : Stmt) (b : Block) :
    names abi (s :: b) = (s.pieces abi).filterMap (Piece.name? abi) ++ names abi b := by
  simp [names, pieces]

@[simp] theorem names_append (abi : Abi) (b c : Block) :
    names abi (b ++ c) = names abi b ++ names abi c := by
  simp [names, pieces]

theorem mem_names_flatMap {α : Type} {abi : Abi} {parts : List α} {code : α → Block}
    {name : String} :
    name ∈ names abi (parts.flatMap code) ↔ ∃ x ∈ parts, name ∈ (code x).names abi := by
  simp only [names, pieces, List.flatMap_assoc, List.filterMap_flatMap, List.mem_flatMap]

/-- Code names the labels that it defines and those that it jumps to. -/
theorem mem_labelsNamed {abi : Abi} {b : Block} {l : Label} :
    l ∈ b.labelsNamed abi ↔ l ∈ b.labels ∨ l ∈ b.targets := by
  have step (s : Stmt) : l ∈ (s.pieces abi).filterMap Piece.label? ↔
      s.definedLabel? = some l ∨ s.target? = some l := by
    cases s with
    | declare var type =>
      cases type <;> simp [Stmt.pieces, Piece.label?, Stmt.definedLabel?, Stmt.target?]
    | _ => simp [Stmt.pieces, Piece.label?, Stmt.definedLabel?, Stmt.target?, eq_comm]
  unfold labelsNamed pieces labels targets
  rw [List.filterMap_flatMap, List.mem_flatMap]
  simp only [step, List.mem_filterMap, and_or_left, exists_or]

end Block

/-- The host's symbols that native code can use. -/
def Abi.hostSymbols (abi : Abi) : List String :=
  [abi.null, abi.incRef, abi.decRef, abi.typeError] ++
    [abi.checkPrefix, abi.unboxPrefix, abi.boxPrefix].flatMap fun word =>
      [word ++ ScalarType.int64.name, word ++ ScalarType.float64.name, word ++ ScalarType.bool.name]

/-- A symbol that depends on a scalar type. -/
theorem Abi.typed_mem_hostSymbols (abi : Abi) (word : String)
    (mem : word ∈ [abi.checkPrefix, abi.unboxPrefix, abi.boxPrefix]) (type : ScalarType) :
    word ++ type.name ∈ abi.hostSymbols := by
  refine List.mem_append_right _ (List.mem_flatMap.2 ⟨word, mem, ?_⟩)
  cases type <;> simp

/-- Native code uses no symbol of the host but those of the `Abi`. -/
theorem Block.symbols_subset (abi : Abi) (b : Block) : b.symbols abi ⊆ abi.hostSymbols := by
  have check := abi.typed_mem_hostSymbols abi.checkPrefix (by simp)
  have unbox := abi.typed_mem_hostSymbols abi.unboxPrefix (by simp)
  have box := abi.typed_mem_hostSymbols abi.boxPrefix (by simp)
  have null : abi.null ∈ abi.hostSymbols := by simp [Abi.hostSymbols]
  have incRef : abi.incRef ∈ abi.hostSymbols := by simp [Abi.hostSymbols]
  have decRef : abi.decRef ∈ abi.hostSymbols := by simp [Abi.hostSymbols]
  have typeError : abi.typeError ∈ abi.hostSymbols := by simp [Abi.hostSymbols]
  have step (s : Stmt) : (s.pieces abi).filterMap Piece.symbol? ⊆ abi.hostSymbols := by
    cases s with
    | declare var type => cases type <;> simp [Stmt.pieces, Piece.symbol?, List.filterMap_cons, null]
    | _ =>
      simp [Stmt.pieces, Piece.symbol?, List.filterMap_cons, check, unbox, box, null, incRef, decRef,
        typeError]
  intro name mem
  unfold symbols pieces at mem
  rw [List.filterMap_flatMap] at mem
  obtain ⟨s, -, mem⟩ := List.mem_flatMap.1 mem
  exact step s mem

/-! ## Whole words -/

/-- Blanks in front of a line do not join the word behind them. -/
theorem Piece.closes_append_indent (abi : Abi) {text : String}
    (closes : (plain text).closes = true) : (plain (text ++ abi.indent)).closes = true := by
  simp only [Piece.closes] at closes ⊢
  rw [String.toList_append, Abi.indent, String.toList_ofList]
  cases abi.indentWidth with
  | zero => simpa using closes
  | succ n =>
    rw [List.replicate_succ', ← List.append_assoc, List.getLast?_concat]
    rfl

theorem Piece.closes_append (text : String) {behind : String}
    (closes : (plain behind).closes = true) : (plain (text ++ behind)).closes = true := by
  simp only [Piece.closes] at closes ⊢
  rw [String.toList_append, List.getLast?_append]
  cases last : behind.toList.getLast? with
  | none =>
    rw [last] at closes
    cases closes
  | some c => rwa [last] at closes

theorem Piece.opens_append {text : String} (opens : (plain text).opens = true) (behind : String) :
    (plain (text ++ behind)).opens = true := by
  simp only [Piece.opens] at opens ⊢
  rw [String.toList_append]
  cases first : text.toList with
  | nil =>
    rw [first] at opens
    cases opens
  | cons c rest => rwa [first] at opens

/-- The words of a statement stand apart, and behind the last one there is plain text. -/
theorem Stmt.pieces_apart (abi : Abi) (s : Stmt) :
    (s.pieces abi).IsChain Piece.Apart ∧
      ∃ last ∈ (s.pieces abi).getLast?, last.isWord = false ∧ last.closes = true := by
  cases s with
  | declare var type =>
    cases type <;>
      simp +decide [pieces, Piece.Apart, Piece.isWord, Piece.closes_append]
  | unbox dst src type fail =>
    have report : (Piece.plain ("(\"" ++ dst ++ "\", \"" ++ type.name ++ "\");\n" ++ abi.indent ++
        "goto ")).opens = true := by
      simp only [String.append_assoc]
      exact Piece.opens_append (by decide) _
    have refusal : (Piece.plain (")) \x7b\n" ++ abi.indent)).opens = true :=
      Piece.opens_append (by decide) _
    simp +decide [pieces, Piece.Apart, Piece.isWord, Piece.closes_append,
      Piece.closes_append_indent, report, refusal]
  | _ =>
    simp +decide [pieces, Piece.Apart, Piece.isWord, Piece.closes_append, Piece.opens_append]

/-- Places, labels and symbols are whole words of a block's code. -/
theorem Block.pieces_apart (abi : Abi) (b : Block) : (b.pieces abi).IsChain Piece.Apart := by
  unfold pieces
  induction b with
  | nil => exact List.isChain_nil
  | cons s b ih =>
    obtain ⟨chain, last, there, plain, closes⟩ := s.pieces_apart abi
    rw [List.flatMap_cons, List.isChain_append]
    refine ⟨chain, ih, fun piece mem next _ => ?_⟩
    cases Option.mem_unique mem there
    exact ⟨fun word => absurd (plain.symm.trans word) (by decide), fun _ => closes⟩

end HostBridge
