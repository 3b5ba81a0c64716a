import HostBridge.Proofs.Text.LineEnding
import HostBridge.Proofs.Yaml.Scalars
import HostBridge.Yaml.Document
import Mathlib.Data.List.Forall2

/-!
# Written mappings

A document that holds a mapping has a `FieldLine` for each field: a key, a colon and a value beside
it. If all values stand for something, the document is read as a mapping with these fields in their
order (`document?_lines`). If the mapping cannot go on behind one of them, it is not read at all
(`document?_stuck`).
-/

namespace HostBridge.Yaml

/-! ## Keys -/

/-- At the beginning of a line the key is written. -/
structure Names (written : List Char) (name : String) : Prop where
  head : ∃ c t, written = c :: t ∧ opensKey c = true
  ret : '\r' ∉ written
  read : ∀ {k : Cursor} {rest : List Char}, k.Opens (written ++ ':' :: ' ' :: rest) →
    ∃ key behind, (∀ least, inline? least k = some (key, behind)) ∧ key.name? = some name ∧
      key.isMerge = false ∧ behind.Inside k.line (':' :: ' ' :: rest)

namespace Cursor

variable {k : Cursor} {line fuel : Nat} {c : Char} {s t rest : List Char}

theorem Opens.steps (opens : k.Opens (c :: t ++ rest)) (solid : isGap c = false)
    (unbroken : ∀ d ∈ t, isBreak d = false) : (steps (c :: t).length k).Inside k.line rest :=
  (Opens.step opens solid).steps unbroken

theorem colonBehind?_eq {key : Cursor} (inside : k.Inside key.line (':' :: ' ' :: rest)) :
    colonBehind? key k = some k := by
  have stays : k.skipWhile isSpace = k := by
    rw [skipWhile_eq (s := []) inside.rest nofun fun c head => by cases head; rfl]
    rfl
  have alone : k.isAlone ':' = true := by
    unfold isAlone
    rw [inside.rest]
    rfl
  unfold colonBehind?
  rw [stays]
  dsimp only
  rw [alone, inside.line]
  simp

end Cursor

/-- A word names the field that is called so. -/
theorem names_word {c : Char} {t : List Char} (lower : c.isLower = true)
    (word : t.all fun d => isGap d = false ∧ d ≠ ':') :
    Names (c :: t) (String.ofList (c :: t)) := by
  rw [List.all_iff_forall_prop] at word
  have opensKey_c : opensKey c = true := by
    rw [opensKey, lower]
    rfl
  have solid := not_gap_of_opensKey opensKey_c
  have other {d : Char} (none : d.isLower = false) : c ≠ d := by
    rintro rfl
    rw [lower] at none
    cases none
  have absent {chars : List Char} (none : chars.all fun d => d.isLower = false) : c ∉ chars :=
    fun mem => other (List.all_iff_forall_prop.1 none c mem) rfl
  have level : ∀ d ∈ t, isBreak d = false := fun d mem => by
    have := (word d mem).1
    rw [isGap, Bool.or_eq_false_iff] at this
    exact this.2
  refine ⟨⟨c, t, rfl, opensKey_c⟩, List.not_mem_cons_of_ne_of_not_mem (Ne.symm (other rfl))
    (return_not_mem level), fun {k rest} opens => ?_⟩
  have inside := Cursor.Opens.steps opens solid level
  refine ⟨.plain (String.ofList (c :: t)), _, fun least => ?_, rfl, ?_, inside⟩
  · have plain : plain? false least k = some (c :: t, Cursor.steps (c :: t).length k) := by
      rw [plain?, Cursor.startsPlain_of_not_mem opens.rest (absent (by decide)) (other rfl)
        (other rfl) solid, if_pos rfl]
      congr 1
      exact Cursor.extent_key opens.rest (List.forall_mem_cons.2 ⟨⟨solid, other rfl⟩, word⟩)
        (by rw [opens.rest, List.length_append]; omega)
    rw [Cursor.inline?_of_plain opens.rest (absent (by decide)), plain]
    rfl
  · rw [Node.isMerge, beq_eq_false_iff_ne]
    intro same
    have chars := congrArg String.toList same
    rw [String.toList_ofList] at chars
    exact other (d := '<') rfl (List.cons.inj chars).1

/-- A name in quotes names the field that is called so. -/
theorem names_quoted (s : List Char) : Names (doubleQuote s) (String.ofList s) := by
  refine ⟨⟨'"', _, rfl, rfl⟩, return_not_mem (level_doubleQuote s), fun {k rest} opens => ?_⟩
  refine ⟨.text (String.ofList s), _, fun least => Cursor.inline?_text opens.rest, rfl, rfl, ?_⟩
  refine Cursor.Opens.steps opens rfl fun d mem => ?_
  exact level_doubleQuote s d (List.mem_cons_of_mem _ mem)

/-! ## Fields -/

/-- A field that is written on a line of its own. -/
structure FieldLine where
  key : List Char
  name : String
  value : List Char

namespace FieldLine

def text (l : FieldLine) : List Char :=
  l.key ++ ':' :: ' ' :: l.value ++ ['\n']

structure WellFormed (l : FieldLine) : Prop where
  names : Names l.key l.name
  beside : Beside l.value

/-- The field of a mapping is that of the line, with a value for which the line's value stands. -/
structure Is (l : FieldLine) (field : Field) : Prop where
  name : field.1.name? = some l.name
  merge : field.1.isMerge = false
  value : ∃ v, Stands l.value v ∧ field.2.value? = some v

theorem WellFormed.text_cons {l : FieldLine} (wellFormed : l.WellFormed) :
    ∃ c t, l.text = c :: t ∧ opensKey c = true := by
  obtain ⟨c, t, key, opens⟩ := wellFormed.names.head
  exact ⟨c, _, by rw [text, key]; rfl, opens⟩

end FieldLine

/-- The document that has the lines. -/
def linesText (lines : List FieldLine) : List Char :=
  lines.flatMap FieldLine.text

theorem resumes_lines {lines : List FieldLine} (each : ∀ l ∈ lines, l.WellFormed) :
    Resumes (linesText lines) := by
  intro c head
  cases lines with
  | nil => cases head
  | cons l lines =>
    obtain ⟨d, t, text, opens⟩ := (each l List.mem_cons_self).text_cons
    rw [linesText, List.flatMap_cons, text] at head
    cases head
    exact opens

theorem return_not_mem_lines {lines : List FieldLine} (each : ∀ l ∈ lines, l.WellFormed) :
    '\r' ∉ linesText lines := by
  intro mem
  obtain ⟨l, there, mem⟩ := List.mem_flatMap.1 mem
  have key := (each l there).names.ret
  have value := (each l there).beside.ret
  simp [FieldLine.text, key, value] at mem

theorem length_le_lines {lines : List FieldLine} (each : ∀ l ∈ lines, l.WellFormed) :
    lines.length ≤ (linesText lines).length := by
  induction lines with
  | nil => exact Nat.le_refl 0
  | cons l lines ih =>
    rw [List.forall_mem_cons] at each
    obtain ⟨c, t, text, -⟩ := each.1.text_cons
    have := ih each.2
    rw [linesText] at this ⊢
    rw [List.flatMap_cons, List.length_append, text, List.length_cons, List.length_cons]
    omega

namespace Cursor

variable {k : Cursor} {line fuel : Nat} {rest : List Char} {l : FieldLine}

theorem Inside.isFresh (inside : k.Inside line rest) : k.isFresh = false := by
  have := inside.column
  have := inside.indent
  rw [Cursor.isFresh, beq_eq_false_iff_ne]
  omega

theorem Opens.isFresh (opens : k.Opens rest) : k.isFresh = true := by
  rw [Cursor.isFresh, opens.indent, opens.column]
  rfl

/-- A value on the line of its key is read behind the colon. -/
theorem blockValue_beside {colon : Cursor} {written : List Char} (beside : Beside written)
    (inside : colon.Inside line (' ' :: (written ++ '\n' :: rest))) (fuel : Nat) :
    colon.skipGap.Inside line (written ++ '\n' :: rest) ∧
      blockValue 0 false (fuel + 1) colon = blockNode 1 false fuel colon.skipGap := by
  obtain ⟨c, t, rfl, solid, comment⟩ := beside.head
  have next : colon.skipGap.Inside line (c :: t ++ '\n' :: rest) := inside.skipGap solid comment
  have stands : standing 0 colon colon.skipGap = .beside := by
    rw [standing, next.isBoundary, if_neg Bool.false_ne_true, if_pos (by rw [next.line, inside.line])]
  refine ⟨next, ?_⟩
  rw [blockValue]
  dsimp only
  rw [stands, next.isFresh]
  rfl

/-- The fields of a mapping from one on that is read, when the next thing stands at a place. -/
def fieldsFrom? (fuel : Nat) (field : Field) (next : Cursor) : Option (List Field × Cursor) :=
  if next.isBoundary then some ([field], next)
  else if !next.isFresh || 0 < next.column then none
  else if next.column = 0 then
    if next.isItem then none
    else (blockFields 0 fuel next).map fun read => (field :: read.1, read.2)
  else some ([field], next)

/-- The key of a line is read, and then the value beside it. -/
theorem blockFields_line (wellFormed : l.WellFormed) (opens : k.Opens (l.text ++ rest)) :
    ∃ (key : Node) (next : Cursor), key.name? = some l.name ∧ key.isMerge = false ∧
      next.Inside k.line (l.value ++ '\n' :: rest) ∧ ∀ fuel, blockFields 0 (fuel + 2) k =
        (blockNode 1 false fuel next).bind fun read =>
          fieldsFrom? (fuel + 1) (key, read.1) read.2.skipGap := by
  have chars : l.text ++ rest = l.key ++ ':' :: ' ' :: (l.value ++ '\n' :: rest) := by
    simp [FieldLine.text]
  obtain ⟨c, t, text, opensKey⟩ := wellFormed.text_cons
  have here := opens.rest
  rw [text] at here
  rw [chars] at opens
  obtain ⟨key, behind, inline, name, merge, inside⟩ := wellFormed.names.read opens
  have colon := inside.step (by decide)
  have keyed : simpleKey? k = some (key, behind.step) := by
    rw [simpleKey?, inline]
    change (colonBehind? k behind >>= fun colon => some (key, colon.step)) = _
    rw [colonBehind?_eq inside]
    rfl
  refine ⟨key, behind.step.skipGap, name, merge, (blockValue_beside wellFormed.beside colon 0).1,
    fun fuel => ?_⟩
  rw [blockFields, isAlone_of_ne here (ne_of_opensKey opensKey rfl), if_neg Bool.false_ne_true,
    isAlone_of_ne here (ne_of_opensKey opensKey rfl), if_neg Bool.false_ne_true, keyed]
  simp only [Option.bind_eq_bind, Option.bind_some, (blockValue_beside wellFormed.beside colon fuel).2]
  cases blockNode 1 false fuel behind.step.skipGap with
  | none => rfl
  | some read =>
    simp only [Option.bind_some, fieldsFrom?]
    cases blockFields 0 (fuel + 1) read.2.skipGap <;> rfl

theorem fieldsFrom?_nil {field : Field} (opens : k.Opens []) :
    fieldsFrom? fuel field k = some ([field], k) := by
  rw [fieldsFrom?, isBoundary_nil opens.rest, if_pos rfl]

theorem fieldsFrom?_line {field : Field} (wellFormed : l.WellFormed) (opens : k.Opens (l.text ++ rest)) :
    fieldsFrom? fuel field k =
      (blockFields 0 fuel k).map fun read => (field :: read.1, read.2) := by
  obtain ⟨c, t, text, opensKey⟩ := wellFormed.text_cons
  have here := opens.rest
  rw [text] at here
  rw [fieldsFrom?, isBoundary_of_ne here (ne_of_opensKey opensKey rfl) (ne_of_opensKey opensKey rfl),
    if_neg Bool.false_ne_true, opens.isFresh, opens.column, if_neg (by decide), if_pos rfl, isItem,
    isAlone_of_ne here (ne_of_opensKey opensKey rfl), if_neg Bool.false_ne_true]

theorem fieldsFrom?_stuck {field : Field} (boundary : k.isBoundary = false) (column : 0 < k.column) :
    fieldsFrom? fuel field k = none := by
  rw [fieldsFrom?, boundary, if_neg Bool.false_ne_true, if_pos]
  rw [Bool.or_eq_true]
  exact .inr (decide_eq_true column)

/-- A field whose value stands for something is read, up to the next line. -/
theorem blockFields_stands {v : Value} (wellFormed : l.WellFormed) (stands : Stands l.value v)
    (opens : k.Opens (l.text ++ rest)) (resumes : Resumes rest) (fuel : Nat) :
    ∃ field next, l.Is field ∧ next.Opens rest ∧
      blockFields 0 (fuel + 3) k = fieldsFrom? (fuel + 2) field next := by
  obtain ⟨key, next, name, merge, inside, line⟩ := blockFields_line wellFormed opens
  obtain ⟨value, behind, read, means, opens'⟩ := stands.read fuel inside resumes
  refine ⟨(key, value), behind.skipGap, ⟨name, merge, v, stands, means⟩, opens', ?_⟩
  rw [line, read]
  rfl

/-- The fields on the lines from one on are the fields of the mapping. -/
theorem blockFields_lines {lines : List FieldLine} (ne : lines ≠ [])
    (each : ∀ l ∈ lines, l.WellFormed) (stand : ∀ l ∈ lines, ∃ v, Stands l.value v)
    (opens : k.Opens (linesText lines)) (enough : lines.length + 2 ≤ fuel) :
    ∃ fields next, blockFields 0 fuel k = some (fields, next) ∧ next.Opens [] ∧
      List.Forall₂ FieldLine.Is lines fields := by
  induction lines generalizing k fuel with
  | nil => exact absurd rfl ne
  | cons l lines ih =>
    rw [List.forall_mem_cons] at each stand
    rw [List.length_cons] at enough
    rw [linesText, List.flatMap_cons] at opens
    obtain ⟨v, stands⟩ := stand.1
    obtain ⟨fuel, rfl⟩ : ∃ n, fuel = n + 3 := ⟨fuel - 3, by omega⟩
    obtain ⟨field, next, is, opens', read⟩ :=
      blockFields_stands each.1 stands opens (resumes_lines each.2) fuel
    cases lines with
    | nil => exact ⟨[field], next, by rw [read, fieldsFrom?_nil opens'], opens', .cons is .nil⟩
    | cons l' lines =>
      have enough' : (l' :: lines).length + 2 ≤ fuel + 2 := by omega
      obtain ⟨fields, behind, further, ended, all⟩ :=
        ih (List.cons_ne_nil l' lines) each.2 stand.2 opens' enough'
      rw [List.flatMap_cons] at opens'
      refine ⟨field :: fields, behind, ?_, ended, .cons is all⟩
      rw [read, fieldsFrom?_line (each.2 l' List.mem_cons_self) opens', further]
      rfl

/-- A value behind which the mapping cannot go on stops it, wherever it stands. -/
theorem blockFields_stuck {before after : List FieldLine}
    (each : ∀ other ∈ before ++ l :: after, other.WellFormed) (stand : ∀ l ∈ before, ∃ v, Stands l.value v)
    (stuck : Stuck l.value) (opens : k.Opens (linesText (before ++ l :: after)))
    (enough : before.length + 3 ≤ fuel) : blockFields 0 fuel k = none := by
  induction before generalizing k fuel with
  | nil =>
    obtain ⟨fuel, rfl⟩ : ∃ n, fuel = n + 3 := ⟨fuel - 3, by omega⟩
    rw [List.nil_append, List.forall_mem_cons] at each
    rw [List.nil_append, linesText, List.flatMap_cons] at opens
    obtain ⟨key, next, -, -, inside, line⟩ := blockFields_line each.1 opens
    rw [line]
    cases read : blockNode 1 false (fuel + 1) next with
    | none => rfl
    | some found =>
      obtain ⟨node, behind⟩ := found
      obtain ⟨boundary, column⟩ :=
        stuck.stuck fuel inside (resumes_lines each.2) node behind read
      exact fieldsFrom?_stuck boundary column
  | cons first before ih =>
    rw [List.cons_append, List.forall_mem_cons] at each
    rw [List.forall_mem_cons] at stand
    rw [List.length_cons] at enough
    rw [List.cons_append, linesText, List.flatMap_cons] at opens
    obtain ⟨v, stands⟩ := stand.1
    obtain ⟨fuel, rfl⟩ : ∃ n, fuel = n + 3 := ⟨fuel - 3, by omega⟩
    obtain ⟨field, next, -, opens', read⟩ :=
      blockFields_stands each.1 stands opens (resumes_lines each.2) fuel
    have enough' : before.length + 3 ≤ fuel + 2 := by omega
    have further := ih each.2 stand.2 opens' enough'
    obtain ⟨l', lines, split⟩ := List.exists_cons_of_ne_nil
      (List.append_ne_nil_of_right_ne_nil before (List.cons_ne_nil l after))
    rw [split] at opens' each
    rw [List.flatMap_cons] at opens'
    rw [read, fieldsFrom?_line (each.2 l' List.mem_cons_self) opens', further]
    rfl

/-- At the first key a block mapping begins. -/
theorem block?_line (wellFormed : l.WellFormed) (opens : k.Opens (l.text ++ rest)) : block? true k =
    (blockFields 0 (8 * k.rest.length + 7) k).map fun read => (.mapping read.1, read.2) := by
  obtain ⟨c, t, text, opensKey⟩ := wellFormed.text_cons
  have here := opens.rest
  rw [text] at here
  have ne {d : Char} (other : Yaml.opensKey d = false) : c ≠ d := ne_of_opensKey opensKey other
  have block : k.rest.head? ≠ some '|' := by
    rw [here]
    exact fun same => ne rfl (Option.some.inj same)
  have keyed : k.Opens (l.key ++ ':' :: ' ' :: (l.value ++ '\n' :: rest)) := by
    rw [FieldLine.text] at opens
    simpa using opens
  obtain ⟨key, behind, inline, -, -, inside⟩ := wellFormed.names.read keyed
  change blockNode 0 true (8 * k.rest.length + 7 + 1) k = _
  rw [blockNode, isItem, isAlone_of_ne here (ne rfl), if_neg Bool.false_ne_true,
    isAlone_of_ne here (ne rfl), isAlone_of_ne here (ne rfl), if_neg (by decide), if_neg block, inline]
  dsimp only
  rw [colonBehind?_eq inside, opens.column, if_pos (show (true && (some behind).isSome) = true from rfl)]

end Cursor

/-! ## Documents -/

/-- At the first key, with nothing before it, the document begins. -/
theorem opening?_key {c : Char} {rest : List Char} {fuel : Nat} {k : Cursor}
    (opens : k.Opens (c :: rest)) (opensKey : opensKey c = true) :
    opening? (fuel + 1) false k = some (true, k) := by
  have ne {d : Char} (other : Yaml.opensKey d = false) : c ≠ d := ne_of_opensKey opensKey other
  have directive : ¬ (k.column = 0 ∧ k.rest.head? = some '%') := by
    rw [opens.rest]
    exact fun both => ne rfl (Option.some.inj both.2)
  unfold opening?
  rw [opens.skipGap fun d head => by cases head; exact opensKey]
  dsimp only
  rw [Cursor.isMark_of_ne opens.rest (ne rfl), if_neg Bool.false_ne_true, if_neg directive,
    if_neg Bool.false_ne_true, Cursor.isMark_of_ne opens.rest (ne rfl), if_neg Bool.false_ne_true,
    opens.isFresh]

/-- A document that begins with a key is read as a block from there on. -/
theorem document?_block {lines : List FieldLine} (ne : lines ≠ [])
    (each : ∀ l ∈ lines, l.WellFormed) : ∃ k : Cursor, k.Opens (linesText lines) ∧
      document? (linesText lines) = (block? true k).bind fun read =>
        if read.2.skipGap.isBoundary ∧ (read.2.skipGap.isMark '.' → read.2.skipGap.endsLine) then
          some read.1
        else none := by
  have ret := return_not_mem_lines each
  obtain ⟨c, t, text, opensKey⟩ : ∃ c t, linesText lines = c :: t ∧ opensKey c = true := by
    obtain ⟨l, lines, rfl⟩ := List.exists_cons_of_ne_nil ne
    obtain ⟨c, t, text, opensKey⟩ := (each l List.mem_cons_self).text_cons
    exact ⟨c, _, by rw [linesText, List.flatMap_cons, text]; rfl, opensKey⟩
  have opens : (Cursor.start (linesText lines)).Opens (linesText lines) := by
    rw [text]
    unfold Cursor.start
    split
    · next mark =>
      rw [(List.cons.inj mark).1] at opensKey
      exact absurd opensKey (by decide)
    · exact ⟨rfl, rfl, rfl⟩
  refine ⟨_, opens, ?_⟩
  rw [text] at opens ret ⊢
  unfold document?
  rw [Text.joinPairs_of_not_mem ret]
  dsimp only
  rw [opening?_key opens opensKey]
  simp only [Option.bind_eq_bind, Option.bind_some]
  rw [Cursor.isBoundary_of_ne opens.rest (ne_of_opensKey opensKey rfl) (ne_of_opensKey opensKey rfl),
    if_neg Bool.false_ne_true]

/-- A document whose values all stand for something is the mapping of its fields. -/
theorem document?_lines {lines : List FieldLine} (ne : lines ≠ [])
    (each : ∀ l ∈ lines, l.WellFormed) (stand : ∀ l ∈ lines, ∃ v, Stands l.value v) :
    ∃ fields, document? (linesText lines) = some (.mapping fields) ∧
      List.Forall₂ FieldLine.Is lines fields := by
  obtain ⟨k, opens, document⟩ := document?_block ne each
  have long := length_le_lines each
  rw [← opens.rest] at long
  have enough : lines.length + 2 ≤ 8 * k.rest.length + 7 := by omega
  obtain ⟨fields, next, read, ended, all⟩ := Cursor.blockFields_lines ne each stand opens enough
  have block : block? true k = some (.mapping fields, next) := by
    obtain ⟨l, lines, rfl⟩ := List.exists_cons_of_ne_nil ne
    rw [linesText, List.flatMap_cons] at opens
    rw [Cursor.block?_line (each l List.mem_cons_self) opens, read]
    rfl
  have ended' : next.skipGap = next := ended.skipGap nofun
  have unmarked : next.isMark '.' = false := by
    rw [Cursor.isMark, ended.rest]
    simp
  refine ⟨fields, ?_, all⟩
  rw [document, block, Option.bind_some]
  dsimp only
  rw [ended', if_pos ⟨Cursor.isBoundary_nil ended.rest,
    fun marked => absurd marked (Bool.eq_false_iff.1 unmarked)⟩]

/-- A document is not read if the mapping cannot go on behind one of its values. -/
theorem document?_stuck {before after : List FieldLine} {l : FieldLine}
    (each : ∀ other ∈ before ++ l :: after, other.WellFormed) (stand : ∀ l ∈ before, ∃ v, Stands l.value v)
    (stuck : Stuck l.value) : document? (linesText (before ++ l :: after)) = none := by
  have ne := List.append_ne_nil_of_right_ne_nil before (List.cons_ne_nil l after)
  obtain ⟨k, opens, document⟩ := document?_block ne each
  have long := length_le_lines each
  rw [← opens.rest, List.length_append, List.length_cons] at long
  have none := Cursor.blockFields_stuck each stand stuck opens
    (show before.length + 3 ≤ 8 * k.rest.length + 7 by omega)
  obtain ⟨first, lines, split⟩ := List.exists_cons_of_ne_nil ne
  rw [split] at opens each
  rw [linesText, List.flatMap_cons] at opens
  rw [document, Cursor.block?_line (each first List.mem_cons_self) opens, none]
  rfl

end HostBridge.Yaml
