import HostBridge.Yaml.Plain
import HostBridge.Yaml.Cursor

/-!
# Literal blocks

A literal block is a header and the lines under it, which are taken as they are but for
their indentation. The header says which line feeds at the end count and may give the
indentation; otherwise the first line that holds more than spaces gives it.
-/

namespace HostBridge.Yaml

/-- Which line feeds at the end of a literal block count. -/
inductive Chomping where
  | strip
  /-- One, whatever there is. -/
  | clip
  /-- All that there are. -/
  | keep
  deriving DecidableEq, Repr

structure BlockHeader where
  chomping : Chomping
  /-- The indentation below the surrounding block, if the header gives it. -/
  indent? : Option Nat
  deriving DecidableEq, Repr

/-- The header with one more sign or digit, which replaces one of its kind. -/
def BlockHeader.extend? (h : BlockHeader) (c : Char) : Option BlockHeader :=
  if c = '-' then some { h with chomping := .strip }
  else if c = '+' then some { h with chomping := .keep }
  else
    match digitIn? 10 c with
    | some (n + 1) => some { h with indent? := some (n + 1) }
    | _ => none

/-- What is left of a line behind a word is blank or a comment. -/
def isTail (s : List Char) : Bool :=
  match s.dropWhile isSpace with
  | [] => true
  | '#' :: _ => s.head?.any isSpace
  | _ => false

/-- The header from its first sign on, and the place where its line ends. -/
def blockHeader? (k : Cursor) : Option (BlockHeader × Cursor) := do
  let header ← (k.rest.takeWhile fun c => !isGap c).foldlM BlockHeader.extend? ⟨.clip, none⟩
  let behind := k.skipWhile fun c => !isGap c
  if isTail (behind.rest.takeWhile fun c => !isBreak c) then
    some (header, behind.skipWhile fun c => !isBreak c)
  else none

/-- A line of a literal block. -/
structure BlockLine where
  content : List Char
  /-- The line has an end; at the end of a document it may have none. -/
  isClosed : Bool
  deriving DecidableEq, Repr

/-- The place behind at most so many spaces that lead to a column. -/
def Cursor.skipIndent (indent : Nat) (k : Cursor) : Cursor :=
  Cursor.steps (min (indent - k.column) (k.rest.takeWhile (· == ' ')).length) k

/-- The indentation of a block whose header gives none, seen from its first line: that of the
first line that holds more than spaces, but at least `least`. No line before that one may be
longer than the indentation. `blank` is the length of the longest line so far. -/
def blockIndent? (least : Nat) : Nat → Nat → Cursor → Option Nat
  | 0, _, _ => none
  | fuel + 1, blank, k =>
    let inner := k.skipWhile (· == ' ')
    match inner.rest with
    | [] => some (max (max blank inner.column) least)
    | c :: _ =>
      if isBreak c then blockIndent? least fuel (max blank inner.column) inner.step
      else
        let indent := max inner.column least
        if blank ≤ indent then some indent else none

/-- The lines of a block, and the place behind it. A line with less indentation that is not
blank ends the block; a tab may not stand where it lacks indentation. -/
def blockLines? (indent : Nat) : Nat → Cursor → Option (List BlockLine × Cursor)
  | 0, _ => none
  | fuel + 1, k =>
    if k.isBoundary then some ([], k)
    else
      let inner := k.skipIndent indent
      match inner.rest with
      | [] => some ([], inner)
      | c :: _ =>
        if isBreak c then do
          let (lines, behind) ← blockLines? indent fuel inner.step
          some (⟨[], true⟩ :: lines, behind)
        else if inner.column < indent then
          if c = '\t' then none else some ([], inner)
        else
          let content := inner.rest.takeWhile fun c => !isBreak c
          let ending := inner.skipWhile fun c => !isBreak c
          if ending.rest = [] then some ([⟨content, false⟩], ending)
          else do
            let (lines, behind) ← blockLines? indent fuel ending.step
            some (⟨content, true⟩ :: lines, behind)

/-- The text of the lines of a block. -/
def blockText (chomping : Chomping) (lines : List BlockLine) : List Char :=
  let body := (lines.reverse.dropWhile fun l => l.content == []).reverse
  let feeds := match chomping with
    | .strip => 0
    | .clip => if body = [] then 0 else 1
    | .keep => (lines.drop (body.length - 1)).countP (·.isClosed)
  ['\n'].intercalate (body.map (·.content)) ++ List.replicate feeds '\n'

/-- The text of a literal block whose header begins at the place, and the place behind it.
Its lines are indented by at least `least`. Each step takes a character. -/
def literal? (least : Nat) (k : Cursor) : Option (List Char × Cursor) := do
  let (header, ending) ← blockHeader? k
  let first := ending.step
  let fuel := k.rest.length + 1
  let indent ← match header.indent? with
    | some n => some (least - 1 + n)
    | none => blockIndent? least fuel 0 first
  let (lines, behind) ← blockLines? indent fuel first
  some (blockText header.chomping lines, behind)

end HostBridge.Yaml
