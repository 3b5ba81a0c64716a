import HostBridge.Proofs.Yaml.Beside
import HostBridge.Yaml.Writer

/-!
# Text in quotes

Between double quotes every text is read as it was: what would end the scalar or belong to the end
of a line is escaped, and blanks on a line without end are not folded.
-/

namespace HostBridge.Yaml

/-- What the written form of a character is read as. Only spaces stand for themselves and would not
count next to the end of a line. -/
def pieceOf (c : Char) : Piece :=
  if c = ' ' then .blank c else .solid c

/-- Written characters end no line, since line feeds are escaped. -/
theorem endLine_map_pieceOf (s : List Char) : Piece.endLine (s.map pieceOf) = false := by
  unfold Piece.endLine
  induction s with
  | nil => rfl
  | cons c s ih =>
    by_cases space : c = ' '
    · subst space
      exact ih
    · rw [List.map_cons, pieceOf, if_neg space]
      rfl

/-- Without the end of a line there is nothing to fold, so all blanks stay. -/
theorem fold_map_pieceOf (s : List Char) : fold (s.map pieceOf) = s := by
  induction s with
  | nil => rw [List.map_nil, fold]
  | cons c s ih =>
    rw [List.map_cons, pieceOf]
    split
    · rw [fold, if_neg (by rw [endLine_map_pieceOf]; decide), ih]
    · rw [fold, ih]

/-! ## Escapes -/

theorem hexByte_control {n : Nat} (control : n < 0x20) :
    charOfHex? (hexByte n) = some (Char.ofNat n) ∧ ∀ c ∈ hexByte n, isBreak c = false := by
  have all : ∀ n < 0x20, charOfHex? (hexByte n) = some (Char.ofNat n) ∧
      (hexByte n).all fun c => isBreak c = false := by decide
  exact ⟨(all n control).1, List.all_iff_forall_prop.1 (all n control).2⟩

/-- A letter behind a backslash is read as the character that it is short for. -/
theorem doubleQuoted_simple {e c : Char} (known : simpleEscape? e = some c) (rest : List Char) :
    doubleQuoted ('\\' :: e :: rest) =
      (doubleQuoted rest).map fun (s, left) => (.solid c :: s, left) := by
  have ne {d : Char} : simpleEscape? d = none → e ≠ d := by
    rintro unknown rfl
    rw [known] at unknown
    cases unknown
  have feed : e ≠ '\n' := ne rfl
  have byte : e ≠ 'x' := ne rfl
  have short : e ≠ 'u' := ne rfl
  have long : e ≠ 'U' := ne rfl
  rw [doubleQuoted, known]
  · cases doubleQuoted rest <;> rfl
  all_goals simp [feed, byte, short, long]

/-- Two hexadecimal digits are read as the control character with that number. -/
theorem doubleQuoted_control {c : Char} (control : c.toNat < 0x20) (rest : List Char) :
    doubleQuoted (['\\', 'x'] ++ hexByte c.toNat ++ rest) =
      (doubleQuoted rest).map fun (s, left) => (.solid c :: s, left) := by
  have code : charOfHex? (hexByte c.toNat) = some c := by
    rw [(hexByte_control control).1, Char.ofNat_toNat]
  unfold hexByte at code ⊢
  rw [List.map_cons, List.map_cons, List.map_nil] at code ⊢
  dsimp only [List.cons_append, List.nil_append]
  rw [doubleQuoted, code]
  cases doubleQuoted rest <;> rfl

/-- A character other than quote and backslash is read as a piece of its own. -/
theorem doubleQuoted_other {c : Char} (quote : c ≠ '"') (backslash : c ≠ '\\') (rest : List Char) :
    doubleQuoted (c :: rest) =
      (doubleQuoted rest).map fun (s, left) => (.ofChar c :: s, left) := by
  rw [doubleQuoted]
  all_goals simp [quote, backslash]

theorem pieceOf_of_ne {c : Char} (other : c ≠ ' ') : pieceOf c = .solid c :=
  if_neg other

/-- One character is read from its written form, whatever comes behind it. -/
theorem doubleQuoted_escape (c : Char) (rest : List Char) :
    doubleQuoted (escapeQuoted c ++ rest) =
      (doubleQuoted rest).map fun (s, left) => (pieceOf c :: s, left) := by
  unfold escapeQuoted
  split
  · next special =>
    rcases special with rfl | rfl <;> exact doubleQuoted_simple rfl rest
  split
  · next same =>
    subst same
    exact doubleQuoted_simple rfl rest
  split
  · next same =>
    subst same
    exact doubleQuoted_simple rfl rest
  split
  · next same =>
    subst same
    exact doubleQuoted_simple rfl rest
  split
  · next same =>
    subst same
    exact doubleQuoted_simple rfl rest
  split
  · next control =>
    rw [doubleQuoted_control control, pieceOf_of_ne]
    rintro rfl
    exact absurd control (by decide)
  · next special feed ret tab _ _ =>
    rw [not_or] at special
    rw [List.singleton_append, doubleQuoted_other special.1 special.2, Piece.ofChar, pieceOf, isBreak,
      isSpace]
    simp [feed, ret, tab]

/-- The written form of a character stays on one line. -/
theorem level_escape (c : Char) : ∀ d ∈ escapeQuoted c, isBreak d = false := by
  unfold escapeQuoted
  split
  · next special =>
    rcases special with rfl | rfl <;> exact List.all_iff_forall_prop.1 (by decide)
  split
  · exact List.all_iff_forall_prop.1 (by decide)
  split
  · exact List.all_iff_forall_prop.1 (by decide)
  split
  · exact List.all_iff_forall_prop.1 (by decide)
  split
  · exact List.all_iff_forall_prop.1 (by decide)
  split
  · next control =>
    rw [List.forall_mem_append]
    exact ⟨List.all_iff_forall_prop.1 (by decide), (hexByte_control control).2⟩
  · next feed ret _ _ _ =>
    rw [List.forall_mem_singleton, isBreak, Bool.or_eq_false_iff, beq_eq_false_iff_ne,
      beq_eq_false_iff_ne]
    exact ⟨feed, ret⟩

/-! ## Texts -/

/-- A text is read from its written form up to the quote that ends it, character by character. -/
theorem doubleQuoted_text (s left : List Char) :
    doubleQuoted (s.flatMap escapeQuoted ++ '"' :: left) = some (s.map pieceOf, left) := by
  induction s with
  | nil => rw [List.flatMap_nil, List.nil_append, doubleQuoted, List.map_nil]
  | cons c s ih =>
    rw [List.flatMap_cons, List.append_assoc, doubleQuoted_escape, ih]
    rfl

theorem level_doubleQuote (s : List Char) : ∀ d ∈ doubleQuote s, isBreak d = false := by
  unfold doubleQuote
  rw [List.forall_mem_append, List.forall_mem_cons]
  refine ⟨⟨rfl, fun d mem => ?_⟩, List.forall_mem_singleton.2 rfl⟩
  obtain ⟨c, -, mem⟩ := List.mem_flatMap.1 mem
  exact level_escape c d mem

theorem laterLines_level {s : List Char} (level : ∀ c ∈ s, isBreak c = false) : laterLines s = [] := by
  induction s with
  | nil => rfl
  | cons c s ih =>
    rw [List.forall_mem_cons] at level
    rw [laterLines]
    · exact ih level.2
    · exact (ne_of_not_break level.1).1

namespace Cursor

variable {k : Cursor} {line least fuel : Nat} {s rest : List Char}

theorem rest_of_quoted (here : k.rest = doubleQuote s ++ rest) :
    k.rest = '"' :: (s.flatMap escapeQuoted ++ '"' :: rest) := by
  rw [here, doubleQuote, List.append_assoc]
  rfl

/-- From the first quote on a cursor reads the text and stands behind the last one. -/
theorem quoted?_text (here : k.rest = doubleQuote s ++ rest) :
    quoted? least k = some (s, steps (doubleQuote s).length k) := by
  unfold quoted?
  rw [rest_of_quoted here]
  change (doubleQuoted (s.flatMap escapeQuoted ++ '"' :: rest) >>= fun read =>
    if (laterLines (k.upTo (k.before read.2))).all (belongs least) then
      some (fold read.1, k.before read.2)
    else none) = _
  rw [doubleQuoted_text]
  change (if (laterLines (k.upTo (k.before rest))).all (belongs least) then
      some (fold (s.map pieceOf), k.before rest)
    else none) = _
  rw [before_eq here, upTo_steps here, laterLines_level (level_doubleQuote s), fold_map_pieceOf]
  rfl

theorem inline?_text (here : k.rest = doubleQuote s ++ rest) :
    inline? least k = some (.text (String.ofList s), steps (doubleQuote s).length k) := by
  unfold inline? flow? flowNode
  rw [rest_of_quoted here]
  change (quoted? least k).map _ = _
  rw [quoted?_text here]
  rfl

/-- Text in quotes is read up to the quote that ends it. -/
theorem blockNode_quoted (inside : k.Inside line (doubleQuote s ++ rest)) :
    ∃ next, blockNode least false (fuel + 1) k = some (.text (String.ofList s), next) ∧
      next.Inside line rest := by
  have chars := rest_of_quoted inside.rest
  have block : k.rest.head? ≠ some '|' := by
    rw [chars]
    exact fun same => absurd (Option.some.inj same) (by decide)
  refine ⟨_, ?_, inside.steps (level_doubleQuote s)⟩
  rw [blockNode, isItem, isAlone_of_ne chars (by decide), if_neg Bool.false_ne_true, Bool.false_and,
    if_neg Bool.false_ne_true, if_neg block, inline?_text inside.rest]
  rfl

end Cursor

/-- Every text stands in quotes. -/
theorem stands_quoted (s : List Char) : Stands (doubleQuote s) (.text (String.ofList s)) where
  head := ⟨_, _, rfl, rfl, by decide⟩
  ret := return_not_mem (level_doubleQuote s)
  read _ _ _ _ inside resumes := by
    obtain ⟨next, read, inside'⟩ := Cursor.blockNode_quoted inside
    exact ⟨_, next, read, rfl, Cursor.skipGap_feed inside'.rest resumes⟩

theorem length_lt_doubleQuote (s : List Char) : s.length < (doubleQuote s).length := by
  have escapes : s.length ≤ (s.flatMap escapeQuoted).length := by
    induction s with
    | nil => exact Nat.le_refl 0
    | cons c s ih =>
      have written : 0 < (escapeQuoted c).length := by
        unfold escapeQuoted
        repeat' split
        all_goals exact Nat.succ_pos _
      rw [List.flatMap_cons, List.length_append, List.length_cons]
      omega
  rw [doubleQuote, List.cons_append, List.length_cons, List.length_append]
  omega

end HostBridge.Yaml
