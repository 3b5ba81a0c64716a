import HostBridge.Proofs.Splitting
import HostBridge.Yaml.Cursor
import Mathlib.Data.Bool.AllAny

/-!
# Places on unindented lines

The documents that are written here have their keys at the beginnings of lines. `Cursor.Opens` is a
place where such a line begins and `Cursor.Inside` one behind its beginning. What a reader passes is
followed by these two alone; the columns count only where lines are indented.
-/

namespace HostBridge.Yaml

theorem ne_of_not_break {c : Char} (unbroken : isBreak c = false) : c ≠ '\n' ∧ c ≠ '\r' := by
  constructor <;> rintro rfl <;> exact absurd unbroken (by decide)

theorem isBreak_of_isSpace {c : Char} (space : isSpace c = true) : isBreak c = false := by
  unfold isSpace at space
  rw [Bool.or_eq_true, beq_iff_eq, beq_iff_eq] at space
  rcases space with rfl | rfl <;> rfl

/-- A key may begin with the character. -/
def opensKey (c : Char) : Bool :=
  c.isLower || c == '"'

/-- The text is over, or a key comes first. -/
def Resumes (rest : List Char) : Prop :=
  ∀ c ∈ rest.head?, opensKey c = true

theorem ne_of_opensKey {c d : Char} (opens : opensKey c = true) (other : opensKey d = false) :
    c ≠ d := by
  rintro rfl
  rw [opens] at other
  cases other

theorem not_gap_of_opensKey {c : Char} (opens : opensKey c = true) : isGap c = false := by
  have ne {d : Char} : opensKey d = false → c ≠ d := ne_of_opensKey opens
  unfold isGap isSpace isBreak
  simp [ne (d := ' ') rfl, ne (d := '\t') rfl, ne (d := '\n') rfl, ne (d := '\r') rfl]

namespace Cursor

/-- A line begins at the place, with the first of these characters. -/
structure Opens (k : Cursor) (rest : List Char) : Prop where
  rest : k.rest = rest
  column : k.column = 0
  indent : k.indent = 0

/-- The place stands on a line that is not indented, behind its beginning. -/
structure Inside (k : Cursor) (line : Nat) (rest : List Char) : Prop where
  rest : k.rest = rest
  line : k.line = line
  column : 0 < k.column
  indent : k.indent = 0

variable {k : Cursor} {line : Nat} {c : Char} {s rest : List Char}

/-! ## Steps -/

/-- Behind a line feed a line begins. -/
theorem step_feed (here : k.rest = '\n' :: rest) : k.step.Opens rest := by
  unfold step
  rw [here]
  exact ⟨rfl, rfl, rfl⟩

/-- A step that stays on the line. -/
theorem step_eq (here : k.rest = c :: rest) (unbroken : isBreak c = false) : k.step =
    ⟨rest, k.line, k.column + 1,
      if c = ' ' ∧ k.indent = k.column then k.column + 1 else k.indent, isGap c⟩ := by
  obtain ⟨feed, ret⟩ := ne_of_not_break unbroken
  unfold step
  rw [here]
  simp [feed, ret]

/-- Behind the first character of a line that is no blank, a cursor is inside of the line. -/
theorem Opens.step (opens : k.Opens (c :: rest)) (solid : isGap c = false) :
    k.step.Inside k.line rest := by
  rw [isGap, Bool.or_eq_false_iff] at solid
  have space : c ≠ ' ' := by
    rintro rfl
    exact absurd solid.1 (by decide)
  rw [step_eq opens.rest solid.2, if_neg fun both => space both.1]
  exact ⟨rfl, rfl, Nat.succ_pos _, opens.indent⟩

theorem Inside.step (inside : k.Inside line (c :: rest)) (unbroken : isBreak c = false) :
    k.step.Inside line rest := by
  have behind : k.indent ≠ k.column := by
    have := inside.column
    have := inside.indent
    omega
  rw [step_eq inside.rest unbroken, if_neg fun both => behind both.2]
  exact ⟨rfl, inside.line, Nat.succ_pos _, inside.indent⟩

/-- A cursor stays inside of its line over characters that do not end it. -/
theorem Inside.steps (inside : k.Inside line (s ++ rest)) (unbroken : ∀ c ∈ s, isBreak c = false) :
    (steps s.length k).Inside line rest := by
  induction s generalizing k with
  | nil => exact inside
  | cons c s ih =>
    rw [List.forall_mem_cons] at unbroken
    exact ih (inside.step unbroken.1) unbroken.2

theorem steps_succ (n : Nat) (k : Cursor) : steps (n + 1) k = (steps n k).step := by
  induction n generalizing k with
  | zero => rfl
  | succ n ih => exact ih k.step

/-- What is skipped is all that satisfies the test and no more, so the steps can be counted. -/
theorem skipWhile_eq {test : Char → Bool} (here : k.rest = s ++ rest)
    (all : ∀ c ∈ s, test c = true) (stops : ∀ c ∈ rest.head?, test c = false) :
    k.skipWhile test = steps s.length k := by
  rw [skipWhile, here, takeWhile_stops all stops]

/-- Between a cursor and the one that some steps lead to there are the characters stepped over. -/
theorem upTo_steps (here : k.rest = s ++ rest) : k.upTo (steps s.length k) = s := by
  rw [upTo, rest_steps, here, List.drop_left, List.length_append, Nat.add_sub_cancel,
    List.take_left]

theorem before_eq (here : k.rest = s ++ rest) : k.before rest = steps s.length k := by
  rw [before, here, List.length_append, Nat.add_sub_cancel]

/-! ## Gaps -/

theorem gapLength_resumes (free : Bool) (resumes : Resumes rest) : gapLength false free rest = 0 := by
  cases rest with
  | nil => rfl
  | cons c rest =>
    have opens := resumes c rfl
    have solid := not_gap_of_opensKey opens
    rw [isGap, Bool.or_eq_false_iff] at solid
    rw [gapLength, solid.1, solid.2]
    simp [ne_of_opensKey opens (d := '#') rfl]

/-- Where a key begins or the text is over there is no gap. -/
theorem Opens.skipGap (opens : k.Opens rest) (resumes : Resumes rest) : k.skipGap = k := by
  rw [Cursor.skipGap, opens.rest, gapLength_resumes k.free resumes]
  rfl

/-- Behind the end of a line, blanks before it included, the next one begins. -/
theorem skipGap_blanks (here : k.rest = s ++ '\n' :: rest) (blanks : ∀ c ∈ s, isSpace c = true)
    (resumes : Resumes rest) : k.skipGap.Opens rest := by
  have length (free : Bool) : gapLength false free (s ++ '\n' :: rest) = s.length + 1 := by
    clear here
    induction s generalizing free with
    | nil =>
      rw [List.nil_append, gapLength, if_pos (show isBreak '\n' = true from rfl),
        gapLength_resumes true resumes]
      rfl
    | cons c s ih =>
      rw [List.forall_mem_cons] at blanks
      rw [List.cons_append, gapLength, ih blanks.2, blanks.1]
      split <;> rfl
  rw [Cursor.skipGap, here, length, steps_succ]
  refine step_feed ?_
  rw [rest_steps, here, List.drop_left]

/-- Where a line ends, the next key stands behind the line feed. -/
theorem skipGap_feed (here : k.rest = '\n' :: rest) (resumes : Resumes rest) :
    k.skipGap.Opens rest :=
  skipGap_blanks (s := []) here nofun resumes

/-- Before a value stands one space. -/
theorem Inside.skipGap (inside : k.Inside line (' ' :: c :: rest)) (solid : isGap c = false)
    (comment : c ≠ '#') : k.skipGap.Inside line (c :: rest) := by
  have length : gapLength false k.free (' ' :: c :: rest) = 1 := by
    rw [isGap, Bool.or_eq_false_iff] at solid
    rw [gapLength, gapLength, solid.1, solid.2]
    simp [comment]
    decide
  rw [Cursor.skipGap, inside.rest, length]
  exact inside.step (by decide)

/-! ## Marks -/

/-- Documents are divided at the beginning of a line only. -/
theorem isBoundary_of_column_pos (here : k.rest = c :: rest) (column : 0 < k.column) :
    k.isBoundary = false := by
  have started : (k.column == 0) = false := by
    rw [beq_eq_false_iff_ne]
    omega
  unfold isBoundary isMark
  rw [here, started]
  rfl

theorem Inside.isBoundary (inside : k.Inside line (c :: rest)) : k.isBoundary = false :=
  isBoundary_of_column_pos inside.rest inside.column

theorem isBoundary_nil (here : k.rest = []) : k.isBoundary = true := by
  unfold Cursor.isBoundary
  rw [here]
  rfl

theorem isMark_of_ne {mark : Char} (here : k.rest = c :: rest) (other : c ≠ mark) :
    k.isMark mark = false := by
  unfold isMark
  rw [here]
  simp [other]

theorem isBoundary_of_ne (here : k.rest = c :: rest) (dash : c ≠ '-') (point : c ≠ '.') :
    k.isBoundary = false := by
  unfold Cursor.isBoundary
  rw [isMark_of_ne here dash, isMark_of_ne here point, here]
  rfl

/-- Another character is not the mark, alone or not. -/
theorem isAlone_of_ne {mark : Char} (here : k.rest = c :: rest) (other : c ≠ mark) :
    k.isAlone mark = false := by
  unfold isAlone
  rw [here]
  simp [other]

end Cursor

end HostBridge.Yaml
