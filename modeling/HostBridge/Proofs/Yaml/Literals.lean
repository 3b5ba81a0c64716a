import HostBridge.Proofs.Yaml.Beside
import HostBridge.Proofs.Yaml.Indentation
import Mathlib.Algebra.Order.BigOperators.Group.List
import Mathlib.Algebra.Order.Ring.Nat

/-!
# Text in literal blocks

The writer indents the lines of a text by two spaces and leaves it to the reader to find that out,
and it writes the line feeds that end a text once more behind its lines. So a text is read back if
the first character that is no line feed is no space either, and if at most one line feed ends it
(`stands_literal`). All other texts are read as something else or not at all
(`literal_cases`): a margin takes spaces away, and line feeds that are all kept are too many.
-/

namespace HostBridge.Yaml

/-! ## The text of a block -/

theorem intercalate_lines (lines : List (List Char)) (last : List Char) :
    ['\n'].intercalate (lines ++ [last]) = joinLines lines last := by
  induction lines with
  | nil => simp [joinLines]
  | cons line lines ih =>
    rw [joinLines_cons, ← ih]
    cases lines with
    | nil => simp [List.intercalate_cons_cons]
    | cons next lines => simp [List.intercalate_cons_cons]

/-- What a header says of the line feeds that end a text. -/
def chomping : Nat → Chomping
  | 0 => .strip
  | 1 => .clip
  | _ => .keep

/-- The text of lines of which the last is not empty. -/
theorem blockText_lines {lines : List (List Char)} {last : List Char} (full : last ≠ [])
    {feeds : Nat} (few : feeds ≤ 1) :
    blockText (chomping feeds) ((lines ++ [last] ++ List.replicate feeds []).map .closed) =
      joinLines lines last ++ List.replicate feeds '\n' := by
  have body : ((((lines ++ [last] ++ List.replicate feeds []).map BlockLine.closed).reverse.dropWhile
      fun l : BlockLine => l.content == []).reverse) = (lines ++ [last]).map BlockLine.closed := by
    rw [List.map_append, List.map_replicate, List.reverse_append, List.reverse_replicate,
      List.dropWhile_append_of_pos, List.map_append,
      List.reverse_append, List.map_singleton, List.reverse_singleton, List.singleton_append,
      List.dropWhile_cons_of_neg (by simpa [BlockLine.closed] using full), List.reverse_cons,
      List.reverse_reverse]
    intro l mem
    rw [List.eq_of_mem_replicate mem]
    rfl
  have contents : ((lines ++ [last]).map BlockLine.closed).map (·.content) = lines ++ [last] := by
    rw [List.map_map]
    exact List.map_id _
  unfold blockText
  dsimp only
  rw [body, contents, intercalate_lines]
  rcases Nat.le_one_iff_eq_zero_or_eq_one.1 few with rfl | rfl
  · rfl
  · simp [chomping]

/-- How many spaces the lines hold. -/
def spaces (lines : List (List Char)) : Nat :=
  (lines.map (·.count ' ')).sum

theorem count_intercalate {c : Char} (other : c ≠ '\n') (lines : List (List Char)) :
    (['\n'].intercalate lines).count c = (lines.map (·.count c)).sum := by
  induction lines with
  | nil => rfl
  | cons line lines ih =>
    cases lines with
    | nil => simp
    | cons next lines =>
      rw [List.intercalate_cons_cons, List.count_append, List.count_append, ih, List.count_singleton,
        if_neg (by simpa using Ne.symm other), Nat.add_zero]
      rfl

/-- The lines that count are the first ones. -/
theorem exists_body_append (lines : List BlockLine) :
    ∃ empty, lines = (lines.reverse.dropWhile fun l => l.content == []).reverse ++ empty := by
  exact ⟨_, (dropWhile_reverse_append _ lines).symm⟩

/-- The text of a block holds no spaces that its lines do not hold. -/
theorem count_space_blockText (chomping : Chomping) (lines : List BlockLine) :
    (blockText chomping lines).count ' ' ≤ spaces (lines.map (·.content)) := by
  obtain ⟨empty, split⟩ := exists_body_append lines
  unfold blockText spaces
  dsimp only
  rw [List.count_append, count_intercalate (by decide), List.count_replicate, if_neg (by decide),
    Nat.add_zero]
  nth_rewrite 2 [split]
  rw [List.map_append, List.map_append, List.sum_append]
  exact Nat.le_add_right _ _

/-- Between lines there is one line feed less than there are lines. -/
theorem count_feed_intercalate {lines : List (List Char)} (levels : ∀ line ∈ lines, '\n' ∉ line)
    (ne : lines ≠ []) : (['\n'].intercalate lines).count '\n' + 1 = lines.length := by
  induction lines with
  | nil => exact absurd rfl ne
  | cons line lines ih =>
    rw [List.forall_mem_cons] at levels
    cases lines with
    | nil => simp [List.count_eq_zero.2 levels.1]
    | cons next lines =>
      have := ih levels.2 (List.cons_ne_nil next lines)
      rw [List.intercalate_cons_cons, List.count_append, List.count_append,
        List.count_eq_zero.2 levels.1, List.length_cons, ← this]
      simp
      omega

/-- If all line feeds at the end count, there is one for each line. -/
theorem count_feed_blockText {lines : List (List Char)} (levels : ∀ line ∈ lines, '\n' ∉ line)
    {line : List Char} (mem : line ∈ lines) (full : line ≠ []) :
    (blockText .keep (lines.map .closed)).count '\n' = lines.length := by
  obtain ⟨empty, split⟩ := exists_body_append (lines.map .closed)
  unfold blockText
  dsimp only
  generalize body : ((lines.map BlockLine.closed).reverse.dropWhile fun l => l.content == []).reverse = B
  rw [body] at split
  have ne : B ≠ [] := by
    rintro rfl
    rw [List.reverse_eq_nil_iff, List.dropWhile_eq_nil_iff] at body
    have := body (.closed line) (List.mem_reverse.2 (List.mem_map_of_mem mem))
    exact full (by simpa [BlockLine.closed] using this)
  have bodyLevels : ∀ content ∈ B.map (·.content), '\n' ∉ content := by
    intro content there
    obtain ⟨l, inBody, rfl⟩ := List.mem_map.1 there
    have inLines : l ∈ lines.map .closed := by
      rw [split]
      exact List.mem_append_left _ inBody
    obtain ⟨line, mem, rfl⟩ := List.mem_map.1 inLines
    exact levels line mem
  have closed : ∀ l ∈ (lines.map BlockLine.closed).drop (B.length - 1), l.isClosed = true := by
    intro l there
    obtain ⟨line, -, rfl⟩ := List.mem_map.1 (List.mem_of_mem_drop there)
    rfl
  have body := count_feed_intercalate bodyLevels (List.map_eq_nil_iff.not.2 ne)
  have whole := congrArg List.length split
  rw [List.length_map] at body
  rw [List.length_map, List.length_append] at whole
  rw [List.count_append, List.count_replicate, if_pos (by decide), List.countP_eq_length.2 closed,
    List.length_drop, List.length_map]
  omega

/-! ## Writing and reading a block -/

/-- The sign for it in a header, if there is one. -/
def Chomping.sign : Chomping → List Char
  | strip => ['-']
  | clip => []
  | keep => ['+']

theorem flatMap_feed (lines : List (List Char)) (rest : List Char) :
    (lines.flatMap fun line => '\n' :: (blockIndent ++ line)) ++ '\n' :: rest =
      '\n' :: (lines.flatMap blockLine ++ rest) := by
  induction lines with
  | nil => rfl
  | cons line lines ih =>
    rw [List.flatMap_cons, List.append_assoc, ih, List.flatMap_cons, blockLine]
    simp

theorem length_le_flatMap_blockLine (lines : List (List Char)) :
    lines.length ≤ (lines.flatMap blockLine).length := by
  induction lines with
  | nil => exact Nat.le_refl 0
  | cons line lines ih =>
    rw [List.flatMap_cons, List.length_append, List.length_cons, blockLine, List.length_append,
      List.length_singleton]
    omega

/-- A literal block and the end of its last line, as a header, lines and further line feeds. -/
theorem literalBlock_eq (s rest : List Char) :
    literalBlock s ++ '\n' :: rest = '|' :: ((chomping (finalFeeds s)).sign ++
      '\n' :: ((textLines s).flatMap blockLine ++ (List.replicate (finalFeeds s) '\n' ++ rest))) := by
  have behind (n : Nat) : List.replicate n '\n' ++ '\n' :: rest =
      '\n' :: (List.replicate n '\n' ++ rest) := by
    rw [← List.cons_append, ← List.replicate_succ, List.replicate_succ', List.append_assoc]
    rfl
  unfold literalBlock
  dsimp only [List.cons_append]
  rw [List.append_assoc, List.append_assoc, behind, flatMap_feed]
  rcases finalFeeds s with _ | _ | n <;> rfl

theorem return_not_mem_literalBlock {s : List Char} (ret : '\r' ∉ s) : '\r' ∉ literalBlock s := by
  unfold literalBlock
  simp only [List.mem_append, List.mem_flatMap, List.mem_cons, not_or]
  refine ⟨⟨?_, ?_⟩, fun mem => absurd (List.eq_of_mem_replicate mem) (by decide)⟩
  · split <;> decide
  · rintro ⟨line, there, (feed | spaces) | mem⟩
    · exact absurd feed (by decide)
    · exact absurd spaces (by decide)
    · exact ret (mem_textLines there mem)

/-- A block stands beside its key: its header is on the line of the key. -/
theorem beside_literalBlock {s : List Char} (ret : '\r' ∉ s) : Beside (literalBlock s) where
  head := by
    unfold literalBlock
    dsimp only
    split <;> exact ⟨'|', _, rfl, rfl, by decide⟩
  ret := return_not_mem_literalBlock ret

namespace Cursor

variable {k : Cursor} {line : Nat} {s rest : List Char}

/-- The sign in the header says how the line feeds at the end are kept. -/
theorem blockHeader?_sign {chomping : Chomping} (here : k.rest = chomping.sign ++ '\n' :: rest) :
    ∃ ending, ending.rest = '\n' :: rest ∧ blockHeader? k = some (⟨chomping, none⟩, ending) := by
  have solid : ∀ c ∈ chomping.sign, (fun c => !isGap c) c = true := by
    cases chomping <;> exact List.all_iff_forall_prop.1 (by decide)
  have stops : ∀ c ∈ ('\n' :: rest).head?, (fun c => !isGap c) c = false := fun c head => by
    cases head
    rfl
  have header : chomping.sign.foldlM BlockHeader.extend? ⟨.clip, none⟩ = some ⟨chomping, none⟩ := by
    cases chomping <;> rfl
  have behind : (k.skipWhile fun c => !isGap c).rest = '\n' :: rest := by
    rw [skipWhile_eq here solid stops, rest_steps, here, List.drop_left]
  refine ⟨(k.skipWhile fun c => !isGap c).skipWhile fun c => !isBreak c, ?_, ?_⟩
  · rw [rest_skipWhile, behind]
    rfl
  · unfold blockHeader?
    rw [here, takeWhile_stops solid stops, header]
    change (if isTail ((k.skipWhile fun c => !isGap c).rest.takeWhile fun c => !isBreak c) then _
      else _) = _
    rw [behind]
    rfl

/-- A literal block is read from its first line on, once its indentation is known. -/
theorem blockNode_literal (inside : k.Inside line (literalBlock s ++ '\n' :: rest)) :
    ∃ (first : Cursor) (steps : Nat),
      first.Opens ((textLines s).flatMap blockLine ++ (List.replicate (finalFeeds s) '\n' ++ rest)) ∧
      (textLines s).length + finalFeeds s < steps ∧ ∀ fuel, blockNode 1 false (fuel + 1) k =
        (blockIndent? 1 steps 0 first).bind fun n => (blockLines? n steps first).map fun read =>
          (.text (String.ofList (blockText (chomping (finalFeeds s)) read.1)), read.2) := by
  have chars := inside.rest
  rw [literalBlock_eq] at chars
  have behind : k.step.rest = (chomping (finalFeeds s)).sign ++ '\n' ::
      ((textLines s).flatMap blockLine ++ (List.replicate (finalFeeds s) '\n' ++ rest)) := by
    rw [rest_step, chars]
    rfl
  obtain ⟨ending, here, header⟩ := blockHeader?_sign behind
  have enough : (textLines s).length + finalFeeds s < k.step.rest.length + 1 := by
    have := length_le_flatMap_blockLine (textLines s)
    rw [behind]
    simp only [List.length_append, List.length_cons, List.length_replicate] at this ⊢
    omega
  refine ⟨ending.step, k.step.rest.length + 1, step_feed here, enough, fun fuel => ?_⟩
  have block : k.rest.head? = some '|' := by
    rw [chars]
    rfl
  rw [blockNode, isItem, isAlone_of_ne chars (by decide), if_neg Bool.false_ne_true, Bool.false_and,
    if_neg Bool.false_ne_true, if_pos block, literal?, header]
  change ((blockIndent? 1 _ 0 ending.step).bind fun n =>
    (blockLines? n _ ending.step).bind fun read => some (blockText _ read.1, read.2)).map _ = _
  cases blockIndent? 1 (k.step.rest.length + 1) 0 ending.step with
  | none => rfl
  | some n =>
    dsimp only [Option.bind_some]
    cases blockLines? n (k.step.rest.length + 1) ending.step <;> rfl

end Cursor

/-! ## The first line -/

/-- The first line of a text that is not void, and the lines before and behind it. -/
structure FirstLine (s : List Char) (voids : List (List Char)) (line : List Char)
    (later : List (List Char)) : Prop where
  found : textLines s = voids ++ line :: later
  void : ∀ void ∈ voids, isVoid void = true
  filled : isVoid line = false
  levels : ∀ line ∈ textLines s, ∀ c ∈ line, isBreak c = false

/-- A text with content has a first line with content, and void lines before it. -/
theorem exists_firstLine {s : List Char} (ret : '\r' ∉ s) (filled : ∃ c ∈ s, c ≠ '\n' ∧ c ≠ ' ') :
    ∃ voids line later, FirstLine s voids line later := by
  obtain ⟨c, mem, feed, space⟩ := filled
  obtain ⟨-, -, -, -, -, levels⟩ := exists_textLines ret ⟨c, mem, feed⟩
  have inLines : c ∈ (textLines s).flatMap fun line => line ++ ['\n'] := by
    rw [flatMap_textLines ret ⟨c, mem, feed⟩]
    exact List.mem_append_left _ mem
  obtain ⟨line, there, mem'⟩ := List.mem_flatMap.1 inLines
  have solid : c ∈ line := by simpa [feed] using mem'
  rcases forall_or_first (fun line => isVoid line = true) (textLines s) with
    all | ⟨voids, first, later, found, void, filled⟩
  · exact absurd (by simpa using List.all_eq_true.1 (all line there) c solid) space
  · exact ⟨voids, first, later, found, void, Bool.eq_false_iff.2 filled, levels⟩

/-- What comes first in a text, line feeds apart, is no space if the first line that is not void has
no margin and the lines before it are empty. -/
theorem FirstLine.head_iff {s line : List Char} {voids later : List (List Char)}
    (first : FirstLine s voids line later) (ret : '\r' ∉ s) (filled : ∃ c ∈ s, c ≠ '\n') :
    (s.dropWhile (· == '\n')).head? ≠ some ' ' ↔ margin line = 0 ∧ ∀ void ∈ voids, void = [] := by
  have stops : ∃ c ∈ s, (c == '\n') = false := by simpa using filled
  rw [← head?_dropWhile_append stops, ← flatMap_textLines ret filled, first.found]
  have allVoid := first.void
  have solid := first.filled
  have level := first.levels line (by rw [first.found]; simp)
  clear first
  induction voids with
  | nil =>
    cases line with
    | nil => cases solid
    | cons c line =>
      have feed := (ne_of_not_break (level c List.mem_cons_self)).1
      rw [List.nil_append, List.flatMap_cons, List.cons_append, List.cons_append,
        List.dropWhile_cons_of_neg (by simpa using feed), List.head?_cons, and_iff_left (by simp),
        margin, List.takeWhile_cons]
      by_cases space : c = ' ' <;> simp [space]
  | cons void voids ih =>
    rw [List.forall_mem_cons] at allVoid
    rw [List.cons_append, List.flatMap_cons, List.forall_mem_cons]
    cases void with
    | nil =>
      rw [List.nil_append, List.singleton_append, List.dropWhile_cons_of_pos (by decide),
        and_iff_right rfl]
      exact ih allVoid.2
    | cons c t =>
      have space : c = ' ' := by simpa using List.all_eq_true.1 allVoid.1 c List.mem_cons_self
      subst space
      rw [List.cons_append, List.cons_append, List.dropWhile_cons_of_neg (by decide), List.head?_cons]
      simp

theorem FirstLine.blockIndent?_iff {s line rest : List Char} {voids later : List (List Char)}
    (first : FirstLine s voids line later) {k : Cursor} {fuel n : Nat}
    (opens : k.Opens ((textLines s).flatMap blockLine ++ rest))
    (enough : (textLines s).length < fuel) : blockIndent? 1 fuel 0 k = some n ↔
      n = margin line + 2 ∧ ∀ void ∈ voids, void.length ≤ margin line := by
  have level := first.levels line (by rw [first.found]; simp)
  rw [first.found, List.flatMap_append, List.flatMap_cons, List.append_assoc, List.append_assoc] at opens
  rw [first.found, List.length_append, List.length_cons] at enough
  rw [Cursor.blockIndent?_lines opens first.void first.filled level (by omega),
    and_iff_right (Nat.zero_le n)]

/-- What is read of lines that are taken without their margin. -/
def marginText (m feeds : Nat) (lines : List (List Char)) : List Char :=
  blockText (chomping feeds) (lines.map fun line => .closed (trimMargin m line))

theorem marginText_zero (feeds : Nat) (lines : List (List Char)) :
    marginText 0 feeds lines = blockText (chomping feeds) (lines.map .closed) := by
  simp only [marginText, trimMargin, Nat.zero_min, List.drop_zero]

/-- The lines that stand in the block of a text. -/
def blockLines (s : List Char) : List (List Char) :=
  textLines s ++ List.replicate (finalFeeds s) []

/-- Without a margin the text of the block is the text that was written. -/
theorem marginText_zero_blockLines {s : List Char} (ret : '\r' ∉ s) (filled : ∃ c ∈ s, c ≠ '\n')
    (few : finalFeeds s ≤ 1) : marginText 0 (finalFeeds s) (blockLines s) = s := by
  obtain ⟨lines, last, full, split, found, -⟩ := exists_textLines ret filled
  have none : finalFeeds s - 1 = 0 := by omega
  rw [marginText_zero, blockLines, found, none, List.replicate_zero, blockText_lines full few, ← split]

/-- A block whose lines all belong to it is read up to the line that resumes the mapping. -/
theorem FirstLine.stands {s line : List Char} {voids later : List (List Char)}
    (first : FirstLine s voids line later) (ret : '\r' ∉ s)
    (narrow : ∀ void ∈ voids, void.length ≤ margin line)
    (reach : ∀ l ∈ later, Reaches (margin line) l) :
    Stands (literalBlock s)
      (.text (String.ofList (marginText (margin line) (finalFeeds s) (blockLines s)))) := by
  refine ⟨beside_literalBlock ret, fun fuel k _ rest inside resumes => ?_⟩
  obtain ⟨start, steps, opens, enough, read⟩ := Cursor.blockNode_literal inside
  have indent : blockIndent? 1 steps 0 start = some (margin line + 2) :=
    (first.blockIndent?_iff opens (by omega)).2 ⟨rfl, narrow⟩
  have belong : ∀ l ∈ textLines s, Reaches (margin line) l := by
    rw [first.found, List.forall_mem_append, List.forall_mem_cons]
    exact ⟨fun void mem => .inl (first.void void mem), .inr (Nat.le_refl _), reach⟩
  obtain ⟨behind, resumed, lines⟩ := Cursor.blockLines?_lines opens belong first.levels resumes enough
  rw [indent] at read
  simp only [Option.bind_some, lines, Option.map_some] at read
  refine ⟨_, behind, read fuel, rfl, ?_⟩
  rwa [resumed.skipGap resumes]

/-- A text is read back from its block if no space comes first and at most one line feed ends it. -/
theorem stands_literal {s : List Char} (ret : '\r' ∉ s) (filled : ∃ c ∈ s, c ≠ '\n' ∧ c ≠ ' ')
    (few : finalFeeds s ≤ 1) (solid : (s.dropWhile (· == '\n')).head? ≠ some ' ') :
    Stands (literalBlock s) (.text (String.ofList s)) := by
  obtain ⟨voids, line, later, first⟩ := exists_firstLine ret filled
  obtain ⟨c, mem, feed, -⟩ := filled
  obtain ⟨flush, empty⟩ := (first.head_iff ret ⟨c, mem, feed⟩).1 solid
  have narrow : ∀ void ∈ voids, void.length ≤ margin line := fun void mem => by
    rw [empty void mem]
    exact Nat.zero_le _
  have stands := first.stands ret narrow fun l _ => .inr (by rw [flush]; exact Nat.zero_le _)
  rwa [flush, marginText_zero_blockLines ret ⟨c, mem, feed⟩ few] at stands

end HostBridge.Yaml
