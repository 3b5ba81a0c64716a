import HostBridge.Proofs.Yaml.Lines
import HostBridge.Proofs.Yaml.Places
import HostBridge.Yaml.Literal
import Mathlib.Data.List.TakeWhile

/-!
# Indented lines

The writer indents the lines of a block by two spaces. The reader takes the indentation from the
first line that holds more than spaces, so spaces at the beginning of that line count as indentation
too: the block is then read with a margin. Lines that begin with fewer spaces end the block
(`Cursor.blockLines?_ends`); all others are read without their margin (`Cursor.blockLines?_lines`).
-/

namespace HostBridge.Yaml

/-- How many spaces a line begins with. -/
def margin (line : List Char) : Nat :=
  (line.takeWhile (· == ' ')).length

/-- The line holds nothing but spaces. -/
def isVoid (line : List Char) : Bool :=
  line.all (· == ' ')

/-- The line belongs to a block that has the margin. -/
def Reaches (m : Nat) (line : List Char) : Prop :=
  isVoid line = true ∨ m ≤ margin line

/-- What is left of a line in a block that has the margin. -/
def trimMargin (m : Nat) (line : List Char) : List Char :=
  line.drop (min m (margin line))

theorem trimMargin_nil (m : Nat) : trimMargin m [] = [] :=
  List.drop_nil

theorem margin_le_length (line : List Char) : margin line ≤ line.length :=
  (List.takeWhile_prefix _).length_le

/-- The margin consists of spaces. -/
theorem take_margin {line : List Char} {n : Nat} (few : n ≤ margin line) :
    line.take n = List.replicate n ' ' := by
  rw [List.eq_replicate_iff, List.length_take,
    Nat.min_eq_left (Nat.le_trans few (margin_le_length line))]
  refine ⟨rfl, fun c mem => ?_⟩
  have inMargin : line.take n = (line.takeWhile (· == ' ')).take n := by
    rw [← List.take_append_of_le_length few, List.takeWhile_append_dropWhile]
  rw [inMargin] at mem
  simpa using List.all_eq_true.1 List.all_takeWhile c (List.mem_of_mem_take mem)

theorem drop_margin (line : List Char) : line.drop (margin line) = line.dropWhile (· == ' ') := by
  have split : line.takeWhile (· == ' ') ++ line.dropWhile (· == ' ') = line :=
    List.takeWhile_append_dropWhile
  exact (congrArg (List.drop (margin line)) split).symm.trans List.drop_left

theorem margin_of_isVoid {line : List Char} (void : isVoid line = true) : margin line = line.length := by
  unfold margin
  rw [List.takeWhile_eq_self_iff.2 (List.all_eq_true.1 void)]

/-- A line that is not void goes on behind its spaces. -/
theorem exists_solid {line : List Char} (filled : isVoid line = false) :
    ∃ c t, line.drop (margin line) = c :: t ∧ c ≠ ' ' := by
  rw [drop_margin]
  cases left : line.dropWhile (· == ' ') with
  | nil =>
    rw [List.dropWhile_eq_nil_iff] at left
    rw [isVoid, List.all_eq_true.2 left] at filled
    cases filled
  | cons c t =>
    refine ⟨c, t, rfl, ?_⟩
    have := List.head?_dropWhile_not (· == ' ') line
    rw [left] at this
    simpa using this

/-- A line of which something is left has the whole margin. -/
theorem Reaches.le_margin {m : Nat} {line t : List Char} {c : Char} (reaches : Reaches m line)
    (trimmed : trimMargin m line = c :: t) : m ≤ margin line := by
  rcases reaches with void | deep
  · have := congrArg List.length trimmed
    rw [trimMargin, margin_of_isVoid void, List.length_drop, List.length_cons] at this
    rw [margin_of_isVoid void]
    omega
  · exact deep

theorem takeWhile_line (line rest : List Char) :
    (line ++ '\n' :: rest).takeWhile (· == ' ') = line.takeWhile (· == ' ') := by
  induction line with
  | nil => rfl
  | cons c line ih =>
    rw [List.cons_append, List.takeWhile_cons, List.takeWhile_cons, ih]

/-- A line that has an end. -/
def BlockLine.closed (content : List Char) : BlockLine :=
  ⟨content, true⟩

/-- A line of a block and its end. -/
def blockLine (line : List Char) : List Char :=
  blockIndent ++ line ++ ['\n']

/-- A line of a block is what it keeps behind the spaces that the reader takes off. -/
theorem blockLine_append {line : List Char} {n : Nat} (few : n ≤ margin line) (rest : List Char) :
    blockLine line ++ rest = List.replicate (n + 2) ' ' ++ (line.drop n ++ '\n' :: rest) := by
  have split : line = List.replicate n ' ' ++ line.drop n := by
    rw [← take_margin few, List.take_append_drop]
  calc blockLine line ++ rest = blockIndent ++ line ++ '\n' :: rest := by
        rw [blockLine, List.append_assoc, List.singleton_append]
    _ = blockIndent ++ (List.replicate n ' ' ++ line.drop n) ++ '\n' :: rest := by rw [← split]
    _ = List.replicate (n + 2) ' ' ++ (line.drop n ++ '\n' :: rest) := by
        rw [List.append_assoc, List.append_assoc]
        rfl

namespace Cursor

variable {k : Cursor} {n m fuel blank feeds : Nat} {c : Char} {line rest : List Char}
  {lines : List (List Char)}

theorem steps_spaces (here : k.rest = List.replicate n ' ' ++ rest) : (steps n k).rest = rest ∧
    (steps n k).column = k.column + n ∧ (0 < n → (steps n k).free = true) := by
  induction n generalizing k with
  | zero => exact ⟨here, rfl, nofun⟩
  | succ n ih =>
    have step := step_eq here rfl
    have there : k.step.rest = List.replicate n ' ' ++ rest := by rw [step, List.append_eq]
    obtain ⟨behind, column, free⟩ := ih there
    refine ⟨behind, ?_, fun _ => ?_⟩
    · rw [steps, column, step]
      dsimp only
      omega
    · cases n with
      | zero =>
        change k.step.free = true
        rw [step]
        rfl
      | succ n => exact free (Nat.succ_pos n)

/-- A place in the margin of a line. -/
theorem steps_margin (opens : k.Opens (blockLine line ++ rest)) (few : n ≤ margin line) :
    (steps (n + 2) k).rest = line.drop n ++ '\n' :: rest ∧ (steps (n + 2) k).column = n + 2 ∧
      (steps (n + 2) k).free = true := by
  have here := opens.rest
  rw [blockLine_append few] at here
  obtain ⟨behind, column, free⟩ := steps_spaces here
  refine ⟨behind, ?_, free (Nat.succ_pos _)⟩
  rw [column, opens.column, Nat.zero_add]

theorem length_takeWhile_blockLine (line rest : List Char) :
    ((blockLine line ++ rest).takeWhile (· == ' ')).length = margin line + 2 := by
  rw [blockLine, List.append_assoc, List.append_assoc, List.singleton_append,
    List.takeWhile_append_of_pos (List.all_iff_forall_prop.1 (by decide)), takeWhile_line,
    List.length_append]
  exact Nat.add_comm 2 _

theorem Opens.skipSpaces (opens : k.Opens (blockLine line ++ rest)) :
    k.skipWhile (· == ' ') = steps (margin line + 2) k := by
  rw [skipWhile, opens.rest, length_takeWhile_blockLine]

/-- The indentation is skipped as far as the line has spaces. -/
theorem Opens.skipIndent (opens : k.Opens (blockLine line ++ rest)) :
    k.skipIndent (m + 2) = steps (min m (margin line) + 2) k := by
  rw [Cursor.skipIndent, opens.rest, length_takeWhile_blockLine, opens.column, Nat.sub_zero,
    Nat.add_min_add_right]

theorem Opens.skipIndent_of_ne (opens : k.Opens (c :: rest)) (space : c ≠ ' ') :
    k.skipIndent (m + 2) = k := by
  rw [Cursor.skipIndent, opens.rest, List.takeWhile_cons_of_neg (by simpa using space),
    List.length_nil, Nat.min_zero]
  rfl

/-- Lines of a block are indented, so none divides documents. -/
theorem Opens.isBoundary_blockLine (opens : k.Opens (blockLine line ++ rest)) :
    k.isBoundary = false := by
  have here := opens.rest
  rw [blockLine, List.append_assoc, List.append_assoc] at here
  exact isBoundary_of_ne here (by decide) (by decide)

/-! ## The indentation of a block -/

/-- A void line is passed, and its length remembered. -/
theorem blockIndent?_void (fuel : Nat) (opens : k.Opens (blockLine line ++ rest))
    (void : isVoid line = true) : ∃ next, next.Opens rest ∧
      blockIndent? 1 (fuel + 1) blank k = blockIndent? 1 fuel (max blank (line.length + 2)) next := by
  obtain ⟨behind, column, -⟩ := steps_margin opens (Nat.le_refl _)
  rw [margin_of_isVoid void, List.drop_length, List.nil_append] at behind
  rw [margin_of_isVoid void] at column
  refine ⟨_, step_feed behind, ?_⟩
  rw [blockIndent?, opens.skipSpaces, margin_of_isVoid void]
  dsimp only
  rw [behind]
  dsimp only
  rw [if_pos (by decide), column]

/-- The first line with content decides the indentation, unless a void line before it was longer. -/
theorem blockIndent?_solid (opens : k.Opens (blockLine line ++ rest)) (filled : isVoid line = false)
    (level : ∀ c ∈ line, isBreak c = false) : blockIndent? 1 (fuel + 1) blank k =
      if blank ≤ margin line + 2 then some (margin line + 2) else none := by
  obtain ⟨behind, column, -⟩ := steps_margin opens (Nat.le_refl _)
  obtain ⟨c, t, solid, -⟩ := exists_solid filled
  have unbroken : isBreak c = false :=
    level c (List.mem_of_mem_drop (solid ▸ List.mem_cons_self : c ∈ line.drop (margin line)))
  rw [solid, List.cons_append] at behind
  rw [blockIndent?, opens.skipSpaces]
  dsimp only
  rw [behind]
  dsimp only
  rw [unbroken, if_neg Bool.false_ne_true, column]
  rfl

/-- The first line that is not void gives the indentation, unless a line before it is longer. -/
theorem blockIndent?_lines {n : Nat}
    (opens : k.Opens (lines.flatMap blockLine ++ (blockLine line ++ rest)))
    (void : ∀ line ∈ lines, isVoid line = true) (filled : isVoid line = false)
    (level : ∀ c ∈ line, isBreak c = false) (enough : lines.length < fuel) :
    blockIndent? 1 fuel blank k = some n ↔
      n = margin line + 2 ∧ blank ≤ n ∧ ∀ void ∈ lines, void.length ≤ margin line := by
  induction lines generalizing fuel blank k with
  | nil =>
    obtain ⟨fuel, rfl⟩ : ∃ n, fuel = n + 1 := ⟨fuel - 1, by omega⟩
    rw [List.flatMap_nil, List.nil_append] at opens
    rw [blockIndent?_solid opens filled level]
    rw [Option.ite_none_right_eq_some, Option.some.injEq]
    constructor
    · rintro ⟨narrow, rfl⟩
      exact ⟨rfl, narrow, nofun⟩
    · rintro ⟨rfl, narrow, -⟩
      exact ⟨narrow, rfl⟩
  | cons first lines ih =>
    rw [List.length_cons] at enough
    obtain ⟨fuel, rfl⟩ : ∃ n, fuel = n + 1 := ⟨fuel - 1, by omega⟩
    rw [List.forall_mem_cons] at void
    rw [List.flatMap_cons, List.append_assoc] at opens
    obtain ⟨next, opens', same⟩ := blockIndent?_void fuel opens void.1
    rw [same, ih opens' void.2 (Nat.lt_of_succ_lt_succ enough), List.forall_mem_cons, Nat.max_le]
    constructor
    · rintro ⟨rfl, ⟨narrow, longer⟩, rest⟩
      exact ⟨rfl, narrow, Nat.le_of_add_le_add_right longer, rest⟩
    · rintro ⟨rfl, narrow, longer, rest⟩
      exact ⟨rfl, ⟨narrow, Nat.add_le_add_right longer 2⟩, rest⟩

/-! ## The lines of a block -/

/-- A line is taken without its margin. -/
theorem blockLines?_line (fuel : Nat) (opens : k.Opens (blockLine line ++ rest))
    (reaches : Reaches m line) (level : ∀ c ∈ line, isBreak c = false) :
    ∃ next, next.Opens rest ∧ blockLines? (m + 2) (fuel + 1) k =
      (blockLines? (m + 2) fuel next).map fun read =>
        (.closed (trimMargin m line) :: read.1, read.2) := by
  obtain ⟨here, column, -⟩ := steps_margin opens (Nat.min_le_right m (margin line))
  change _ = trimMargin m line ++ '\n' :: rest at here
  cases trimmed : trimMargin m line with
  | nil =>
    rw [trimmed, List.nil_append] at here
    refine ⟨_, step_feed here, ?_⟩
    rw [blockLines?, opens.isBoundary_blockLine, if_neg Bool.false_ne_true, opens.skipIndent]
    dsimp only
    rw [here]
    dsimp only
    rw [if_pos (by decide)]
    cases blockLines? (m + 2) fuel (steps (min m (margin line) + 2) k).step <;> rfl
  | cons c t =>
    rw [trimmed] at here
    have mem {d : Char} (there : d ∈ c :: t) : d ∈ line :=
      List.mem_of_mem_drop (trimmed ▸ there : d ∈ trimMargin m line)
    have unbroken := level c (mem List.mem_cons_self)
    have deep := reaches.le_margin trimmed
    rw [Nat.min_eq_left deep] at column
    have content : ∀ d ∈ c :: t, (fun d => !isBreak d) d = true := fun d there => by
      simpa using level d (mem there)
    have stops : ∀ d ∈ ('\n' :: rest).head?, (fun d => !isBreak d) d = false := fun d head => by
      cases head
      rfl
    have behindLine : ((steps (min m (margin line) + 2) k).skipWhile fun d => !isBreak d).rest =
        '\n' :: rest := by
      rw [skipWhile_eq here content stops, rest_steps, here, List.drop_left]
    refine ⟨_, step_feed behindLine, ?_⟩
    rw [blockLines?, opens.isBoundary_blockLine, if_neg Bool.false_ne_true, opens.skipIndent]
    dsimp only
    rw [here]
    dsimp only [List.cons_append]
    rw [unbroken, if_neg Bool.false_ne_true, Nat.min_eq_left deep, column, if_neg (Nat.lt_irrefl _)]
    rw [Nat.min_eq_left deep] at behindLine
    rw [behindLine, if_neg (List.cons_ne_nil _ _)]
    have taken := takeWhile_stops content stops
    rw [List.cons_append] at taken
    rw [taken]
    cases blockLines? (m + 2) fuel _ <;> rfl

/-- A line that does not reach over the margin ends the block before its first solid character. -/
theorem blockLines?_short {t : List Char} (opens : k.Opens (blockLine line ++ rest))
    (short : ¬ Reaches m line) (solid : line.drop (margin line) = c :: t) (unbroken : isBreak c = false) :
    blockLines? (m + 2) (fuel + 1) k =
      if c = '\t' then none else some ([], steps (margin line + 2) k) := by
  obtain ⟨here, column, -⟩ := steps_margin opens (Nat.le_refl _)
  have shallow : margin line < m := Nat.lt_of_not_le fun deep => short (.inr deep)
  rw [solid, List.cons_append] at here
  rw [blockLines?, opens.isBoundary_blockLine, if_neg Bool.false_ne_true, opens.skipIndent,
    Nat.min_eq_right (Nat.le_of_lt shallow)]
  dsimp only
  rw [here]
  dsimp only
  rw [unbroken, if_neg Bool.false_ne_true, column, if_pos (Nat.add_lt_add_right shallow 2)]

theorem blockLines?_feed (fuel : Nat) (opens : k.Opens ('\n' :: rest)) :
    ∃ next, next.Opens rest ∧ blockLines? (m + 2) (fuel + 1) k =
      (blockLines? (m + 2) fuel next).map fun read => (.closed [] :: read.1, read.2) := by
  refine ⟨k.step, step_feed opens.rest, ?_⟩
  rw [blockLines?, isBoundary_of_ne opens.rest (by decide) (by decide), if_neg Bool.false_ne_true,
    opens.skipIndent_of_ne (by decide)]
  dsimp only
  rw [opens.rest]
  dsimp only
  rw [if_pos (by decide)]
  cases blockLines? (m + 2) fuel k.step <;> rfl

/-- A block is over where the next key begins. -/
theorem blockLines?_resumes (opens : k.Opens rest) (resumes : Resumes rest) :
    blockLines? (m + 2) (fuel + 1) k = some ([], k) := by
  cases rest with
  | nil => rw [blockLines?, isBoundary_nil opens.rest, if_pos rfl]
  | cons c rest =>
    have ne {d : Char} : opensKey d = false → c ≠ d := ne_of_opensKey (resumes c rfl)
    have solid := not_gap_of_opensKey (resumes c rfl)
    rw [isGap, Bool.or_eq_false_iff] at solid
    rw [blockLines?, isBoundary_of_ne opens.rest (ne rfl) (ne rfl), if_neg Bool.false_ne_true,
      opens.skipIndent_of_ne (ne rfl)]
    dsimp only
    rw [opens.rest]
    dsimp only
    rw [solid.2, if_neg Bool.false_ne_true, opens.column, if_pos (Nat.succ_pos _), if_neg (ne rfl)]

theorem blockLines?_feeds (opens : k.Opens (List.replicate feeds '\n' ++ rest))
    (resumes : Resumes rest) (enough : feeds < fuel) : ∃ behind, behind.Opens rest ∧
      blockLines? (m + 2) fuel k = some (List.replicate feeds (.closed []), behind) := by
  obtain ⟨fuel, rfl⟩ : ∃ n, fuel = n + 1 := ⟨fuel - 1, by omega⟩
  induction feeds generalizing fuel k with
  | zero => exact ⟨k, opens, blockLines?_resumes opens resumes⟩
  | succ feeds ih =>
    obtain ⟨fuel, rfl⟩ : ∃ n, fuel = n + 1 := ⟨fuel - 1, by omega⟩
    obtain ⟨next, opens', line⟩ := blockLines?_feed (fuel + 1) opens
    obtain ⟨behind, resumed, read⟩ := ih opens' fuel (by omega)
    exact ⟨behind, resumed, by rw [line, read]; rfl⟩

/-- Lines that all reach over the margin, and line feeds behind them, are read up to the line that
resumes the mapping. -/
theorem blockLines?_lines (opens : k.Opens (lines.flatMap blockLine ++ (List.replicate feeds '\n' ++ rest)))
    (reach : ∀ line ∈ lines, Reaches m line) (levels : ∀ line ∈ lines, ∀ c ∈ line, isBreak c = false)
    (resumes : Resumes rest) (enough : lines.length + feeds < fuel) :
    ∃ behind, behind.Opens rest ∧ blockLines? (m + 2) fuel k = some
      ((lines ++ List.replicate feeds []).map fun line => .closed (trimMargin m line), behind) := by
  induction lines generalizing fuel k with
  | nil =>
    rw [List.length_nil, Nat.zero_add] at enough
    rw [List.nil_append, List.map_replicate, trimMargin_nil]
    exact blockLines?_feeds opens resumes enough
  | cons line lines ih =>
    rw [List.length_cons] at enough
    rw [List.forall_mem_cons] at reach levels
    rw [List.flatMap_cons, List.append_assoc] at opens
    obtain ⟨fuel, rfl⟩ : ∃ n, fuel = n + 1 := ⟨fuel - 1, by omega⟩
    obtain ⟨next, opens', first⟩ := blockLines?_line fuel opens reach.1 levels.1
    have enough' : lines.length + feeds < fuel := by omega
    obtain ⟨behind, resumed, read⟩ := ih opens' reach.2 levels.2 enough'
    exact ⟨behind, resumed, by rw [first, read]; rfl⟩

/-- The first line that does not reach over the margin ends the block. -/
theorem blockLines?_ends {t : List Char}
    (opens : k.Opens (lines.flatMap blockLine ++ (blockLine line ++ rest)))
    (reach : ∀ line ∈ lines, Reaches m line) (levels : ∀ line ∈ lines, ∀ c ∈ line, isBreak c = false)
    (short : ¬ Reaches m line) (solid : line.drop (margin line) = c :: t) (unbroken : isBreak c = false)
    (enough : lines.length < fuel) :
    ∃ behind, behind.rest = c :: t ++ '\n' :: rest ∧ 0 < behind.column ∧ behind.free = true ∧
      blockLines? (m + 2) fuel k = if c = '\t' then none else
        some (lines.map fun line => .closed (trimMargin m line), behind) := by
  induction lines generalizing fuel k with
  | nil =>
    obtain ⟨fuel, rfl⟩ : ∃ n, fuel = n + 1 := ⟨fuel - 1, by omega⟩
    obtain ⟨here, column, free⟩ := steps_margin opens (Nat.le_refl _)
    rw [solid] at here
    exact ⟨_, here, by omega, free, blockLines?_short opens short solid unbroken⟩
  | cons first lines ih =>
    rw [List.length_cons] at enough
    rw [List.forall_mem_cons] at reach levels
    rw [List.flatMap_cons, List.append_assoc] at opens
    obtain ⟨fuel, rfl⟩ : ∃ n, fuel = n + 1 := ⟨fuel - 1, by omega⟩
    obtain ⟨next, opens', read⟩ := blockLines?_line fuel opens reach.1 levels.1
    obtain ⟨behind, here, column, free, ends⟩ :=
      ih opens' reach.2 levels.2 (Nat.lt_of_succ_lt_succ enough)
    refine ⟨behind, here, column, free, ?_⟩
    rw [read, ends]
    split <;> rfl

end Cursor

end HostBridge.Yaml
