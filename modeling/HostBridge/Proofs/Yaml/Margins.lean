import HostBridge.Proofs.Yaml.Literals
import Mathlib.Data.List.Chain

/-!
# Literal blocks with a margin

If the first line of a text that is not void begins with spaces, its block has a margin. Either the
block is read up to its end, without the margin of its lines, or a line that does not reach over the
margin ends it: what comes there is no key, so it must be a comment for the mapping to go on. In no
case the text is read back, and neither is it if more than one line feed ends it (`literal_cases`).
-/

namespace HostBridge.Yaml

/-! ## Gaps behind a block -/

theorem gapLength_append {region rest : List Char} (ends : region.getLast? = some '\n')
    (resumes : Resumes rest) (inComment free : Bool) :
    gapLength inComment free (region ++ rest) = gapLength inComment free region := by
  induction region generalizing inComment free with
  | nil => cases ends
  | cons c region ih =>
    by_cases alone : region = []
    · subst alone
      cases ends
      rw [List.singleton_append, gapLength, gapLength, Cursor.gapLength_resumes true resumes]
      rfl
    · have ends' : region.getLast? = some '\n' := by
        rw [← ends, List.getLast?_cons_of_ne_nil alone]
      rw [List.cons_append, gapLength, gapLength]
      simp only [ih ends']

/-- A gap goes over all of a text, or up to a character that is no part of one. -/
theorem gapLength_cases (region : List Char) (inComment free : Bool) :
    gapLength inComment free region = region.length ∨ ∃ before c after,
      region = before ++ c :: after ∧ gapLength inComment free region = before.length ∧
        isGap c = false := by
  induction region generalizing inComment free with
  | nil => exact .inl rfl
  | cons c region ih =>
    have further (inComment free : Bool) : gapLength inComment free region + 1 = (c :: region).length ∨
        ∃ before d after, c :: region = before ++ d :: after ∧
          gapLength inComment free region + 1 = before.length ∧ isGap d = false := by
      rcases ih inComment free with whole | ⟨before, d, after, split, length, solid⟩
      · exact .inl (congrArg (· + 1) whole)
      · exact .inr ⟨c :: before, d, after, by rw [split]; rfl, congrArg (· + 1) length, solid⟩
    unfold gapLength
    split
    · exact further false true
    split
    · exact further true true
    split
    · exact further false true
    split
    · exact further true true
    · next unbroken _ space _ =>
      exact .inr ⟨[], c, region, rfl, rfl, by simp [isGap, unbroken, space]⟩

/-- Behind a line feed comes a space or another line feed. -/
def Indented (region : List Char) : Prop :=
  region.IsChain fun c d => c = '\n' → d = ' ' ∨ d = '\n'

theorem indented_lines {s : List Char} {lines : List (List Char)} (feeds : Nat)
    (level : ∀ c ∈ s, isBreak c = false) (levels : ∀ line ∈ lines, ∀ c ∈ line, isBreak c = false) :
    Indented (s ++ '\n' :: (lines.flatMap blockLine ++ List.replicate feeds '\n')) := by
  have onLine {s : List Char} (level : ∀ c ∈ s, isBreak c = false) : Indented s := by
    refine List.isChain_iff_getElem.2 fun i bound feed => ?_
    exact absurd feed (ne_of_not_break (level _ (List.getElem_mem _))).1
  have joins {s region : List Char} (level : ∀ c ∈ s, isBreak c = false) (indented : Indented region) :
      Indented (s ++ region) := by
    refine List.isChain_append.2 ⟨onLine level, indented, fun c last _ _ feed => ?_⟩
    exact absurd feed (ne_of_not_break (level c (List.mem_of_getLast? last))).1
  induction lines generalizing s with
  | nil =>
    refine joins level ?_
    have feed : '\n' :: (([] : List (List Char)).flatMap blockLine ++ List.replicate feeds '\n') =
        List.replicate (feeds + 1) '\n' := rfl
    rw [feed]
    exact List.isChain_iff_getElem.2 fun i bound _ => .inr (List.getElem_replicate _)
  | cons line lines ih =>
    rw [List.forall_mem_cons] at levels
    refine joins level ?_
    have spaced : ∀ c ∈ ' ' :: ' ' :: line, isBreak c = false :=
      List.forall_mem_cons.2 ⟨rfl, List.forall_mem_cons.2 ⟨rfl, levels.1⟩⟩
    have next := ih spaced levels.2
    rw [List.flatMap_cons, blockLine, List.append_assoc, List.append_assoc, List.append_assoc]
    exact List.isChain_cons_cons.2 ⟨fun _ => .inl rfl, next⟩

theorem getLast?_lines (s : List Char) (lines : List (List Char)) (feeds : Nat) :
    (s ++ '\n' :: (lines.flatMap blockLine ++ List.replicate feeds '\n')).getLast? = some '\n' := by
  obtain ⟨before, ends⟩ : ∃ before,
      '\n' :: (lines.flatMap blockLine ++ List.replicate feeds '\n') = before ++ ['\n'] := by
    induction lines with
    | nil => exact ⟨List.replicate feeds '\n', List.replicate_succ'⟩
    | cons line lines ih =>
      obtain ⟨before, ends⟩ := ih
      refine ⟨'\n' :: (blockIndent ++ line) ++ before, ?_⟩
      rw [List.append_assoc, ← ends, List.flatMap_cons, blockLine]
      simp
  rw [ends, ← List.append_assoc, List.getLast?_concat]

namespace Cursor

variable {k : Cursor} {rest region : List Char}

theorem column_step_pos {c : Char} (here : k.rest = c :: rest) (other : c ≠ '\n') :
    0 < k.step.column := by
  unfold step
  rw [here]
  dsimp only
  rw [if_neg other]
  exact Nat.succ_pos _

/-- Behind indented lines the mapping resumes if they are a gap, and it cannot go on otherwise. -/
theorem skipGap_region (here : k.rest = region ++ rest) (resumes : Resumes rest)
    (column : 0 < k.column) (ends : region.getLast? = some '\n') (indented : Indented region) :
    if gapLength false k.free region = region.length then k.skipGap.Opens rest
    else k.skipGap.isBoundary = false ∧ 0 < k.skipGap.column := by
  have passed : k.skipGap = steps (gapLength false k.free region) k := by
    rw [skipGap, here, gapLength_append ends resumes]
  rw [passed]
  split
  · next whole =>
    obtain ⟨region, rfl⟩ := List.getLast?_eq_some_iff.1 ends
    rw [whole, List.length_append, List.length_singleton, steps_succ]
    refine step_feed ?_
    rw [rest_steps, here, List.append_assoc, List.drop_left]
    rfl
  · next stops =>
    obtain ⟨before, c, after, split, length, solid⟩ :=
      (gapLength_cases region false k.free).resolve_left stops
    subst split
    rw [length]
    have there : (steps before.length k).rest = c :: (after ++ rest) := by
      rw [rest_steps, here, List.append_assoc, List.drop_left]
      rfl
    have column' : 0 < (steps before.length k).column := by
      rcases List.eq_nil_or_concat before with rfl | ⟨before, d, rfl⟩
      · exact column
      · rw [List.concat_eq_append, List.append_assoc] at here indented
        have next := (List.isChain_append.1 indented).2.1
        rw [List.singleton_append, List.isChain_cons_cons] at next
        rw [List.concat_eq_append, List.length_append, List.length_singleton, steps_succ]
        have last : (steps before.length k).rest = d :: c :: (after ++ rest) := by
          rw [rest_steps, here, List.append_assoc, List.drop_left]
          rfl
        refine column_step_pos last fun feed => ?_
        rcases next.1 feed with rfl | rfl <;> cases solid
    exact ⟨isBoundary_of_column_pos there column', column'⟩

end Cursor

/-! ## Counting characters -/

theorem count_space_textLines {s : List Char} (ret : '\r' ∉ s) (filled : ∃ c ∈ s, c ≠ '\n') :
    s.count ' ' = spaces (textLines s) := by
  have whole := congrArg (List.count ' ') (flatMap_textLines ret filled)
  rw [List.count_append, List.count_replicate, if_neg (by decide), Nat.add_zero,
    List.count_flatMap] at whole
  rw [← whole]
  refine congrArg List.sum (List.map_congr_left fun line _ => ?_)
  rw [Function.comp_apply, List.count_append, List.count_singleton, if_neg (by decide), Nat.add_zero]

theorem count_feed_textLines {s : List Char} (ret : '\r' ∉ s) (filled : ∃ c ∈ s, c ≠ '\n')
    (feeds : 0 < finalFeeds s) : s.count '\n' = (textLines s).length := by
  obtain ⟨-, -, -, -, -, levels⟩ := exists_textLines ret filled
  have whole := congrArg (List.count '\n') (flatMap_textLines ret filled)
  have none : 1 - finalFeeds s = 0 := by omega
  rw [none, List.replicate_zero, List.append_nil, List.count_flatMap] at whole
  rw [← whole]
  have each : (textLines s).map (List.count '\n' ∘ fun line => line ++ ['\n']) =
      List.replicate (textLines s).length 1 := by
    rw [List.eq_replicate_iff, List.length_map]
    refine ⟨rfl, fun n mem => ?_⟩
    obtain ⟨line, there, rfl⟩ := List.mem_map.1 mem
    have level : '\n' ∉ line := fun feed => absurd (levels line there _ feed) (by decide)
    rw [Function.comp_apply, List.count_append, List.count_eq_zero.2 level]
    rfl
  rw [each, List.sum_replicate_nat, Nat.mul_one]

theorem count_trimMargin_le (m : Nat) (line : List Char) :
    (trimMargin m line).count ' ' ≤ line.count ' ' :=
  (List.drop_sublist _ _).count_le ' '

/-- The margin is taken from the line that has it. -/
theorem spaces_trimMargin_lt {lines : List (List Char)} {line : List Char} (mem : line ∈ lines)
    (deep : 0 < margin line) : spaces (lines.map (trimMargin (margin line))) < spaces lines := by
  unfold spaces
  rw [List.map_map]
  refine List.sum_lt_sum _ _ (fun l _ => count_trimMargin_le _ l) ⟨line, mem, ?_⟩
  have split := congrArg (List.count ' ') (List.take_append_drop (margin line) line)
  rw [List.count_append, take_margin (Nat.le_refl _), List.count_replicate_self] at split
  rw [Function.comp_apply, trimMargin, Nat.min_self]
  omega

theorem spaces_append (lines lines' : List (List Char)) :
    spaces (lines ++ lines') = spaces lines + spaces lines' := by
  rw [spaces, List.map_append, List.sum_append]
  rfl

/-- Lines that are read without a margin lack its spaces. -/
theorem marginText_ne {s line : List Char} {lines : List (List Char)} (mem : line ∈ lines)
    (deep : 0 < margin line) (all : spaces lines ≤ s.count ' ') (feeds : Nat) :
    marginText (margin line) feeds lines ≠ s := by
  intro same
  have counted := count_space_blockText (chomping feeds)
    (lines.map fun l => .closed (trimMargin (margin line) l))
  have less := spaces_trimMargin_lt mem deep
  rw [List.map_map] at counted
  change (marginText (margin line) feeds lines).count ' ' ≤ spaces (lines.map (trimMargin _)) at counted
  rw [same] at counted
  omega

theorem spaces_blockLines (s : List Char) : spaces (blockLines s) = spaces (textLines s) := by
  rw [blockLines, spaces_append, spaces, spaces, List.map_replicate, List.sum_replicate_nat,
    List.count_nil, Nat.mul_zero, Nat.add_zero]

/-- If several line feeds end a text, too many are read. -/
theorem marginText_zero_ne {s : List Char} (ret : '\r' ∉ s) (filled : ∃ c ∈ s, c ≠ '\n')
    (several : 2 ≤ finalFeeds s) : marginText 0 (finalFeeds s) (blockLines s) ≠ s := by
  intro same
  obtain ⟨lines, last, full, -, found, levels⟩ := exists_textLines ret filled
  have keep : chomping (finalFeeds s) = .keep := by
    obtain ⟨n, feeds⟩ := Nat.exists_eq_add_of_le' several
    rw [feeds]
    rfl
  have level : ∀ line ∈ blockLines s, '\n' ∉ line := by
    unfold blockLines
    rw [List.forall_mem_append]
    refine ⟨fun line there feed => absurd (levels line there _ feed) (by decide), fun line there => ?_⟩
    rw [List.eq_of_mem_replicate there]
    exact List.not_mem_nil
  have mem : last ∈ blockLines s := by
    rw [blockLines, found]
    simp
  have counted := count_feed_blockText level mem full
  rw [marginText_zero, keep] at same
  rw [same, count_feed_textLines ret filled (by omega), blockLines, List.length_append,
    List.length_replicate] at counted
  omega

/-! ## All texts of several lines -/

theorem FirstLine.found_before {s line short : List Char} {voids before after : List (List Char)}
    (first : FirstLine s voids line (before ++ short :: after)) :
    textLines s = (voids ++ line :: before) ++ short :: after := by
  rw [first.found, List.append_assoc, List.cons_append]

/-- Before the first solid character of a line that does not reach over the margin the block ends. -/
theorem FirstLine.blockNode_ends {s line short t rest : List Char}
    {voids before after : List (List Char)} {c : Char} {k : Cursor} {place : Nat}
    (first : FirstLine s voids line (before ++ short :: after))
    (narrow : ∀ void ∈ voids, void.length ≤ margin line)
    (reach : ∀ l ∈ before, Reaches (margin line) l) (ends : ¬ Reaches (margin line) short)
    (solid : short.drop (margin short) = c :: t)
    (inside : k.Inside place (literalBlock s ++ '\n' :: rest)) :
    ∃ behind : Cursor, behind.rest = c :: t ++ '\n' :: (after.flatMap blockLine ++
        (List.replicate (finalFeeds s) '\n' ++ rest)) ∧
      0 < behind.column ∧ behind.free = true ∧ ∀ fuel, blockNode 1 false (fuel + 1) k =
        if c = '\t' then none else some (.text (String.ofList
          (marginText (margin line) (finalFeeds s) (voids ++ line :: before))), behind) := by
  obtain ⟨start, steps, opens, enough, read⟩ := Cursor.blockNode_literal inside
  have indent : blockIndent? 1 steps 0 start = some (margin line + 2) :=
    (first.blockIndent?_iff opens (by omega)).2 ⟨rfl, narrow⟩
  have levels := first.levels
  rw [first.found_before, List.forall_mem_append, List.forall_mem_cons] at levels
  have belong : ∀ l ∈ voids ++ line :: before, Reaches (margin line) l := by
    rw [List.forall_mem_append, List.forall_mem_cons]
    exact ⟨fun void mem => .inl (first.void void mem), .inr (Nat.le_refl _), reach⟩
  have unbroken : isBreak c = false :=
    levels.2.1 c (List.mem_of_mem_drop (solid ▸ List.mem_cons_self : c ∈ short.drop (margin short)))
  rw [first.found_before, List.flatMap_append, List.flatMap_cons, List.append_assoc,
    List.append_assoc] at opens
  have enough' : (voids ++ line :: before).length < steps := by
    rw [first.found_before, List.length_append] at enough
    omega
  obtain ⟨behind, here, column, free, lines⟩ :=
    Cursor.blockLines?_ends opens belong levels.1 ends solid unbroken enough'
  refine ⟨behind, here, column, free, fun fuel => ?_⟩
  rw [read, indent, Option.bind_some, lines]
  split <;> rfl

/-- Behind a block that such a line ends, the mapping resumes if the lines that are left are a gap,
and it cannot go on otherwise. -/
theorem FirstLine.skipGap_ends {s line short t region rest : List Char}
    {voids before after : List (List Char)} {c : Char} {k : Cursor} {place : Nat}
    (first : FirstLine s voids line (before ++ short :: after))
    (narrow : ∀ void ∈ voids, void.length ≤ margin line)
    (reach : ∀ l ∈ before, Reaches (margin line) l) (ends : ¬ Reaches (margin line) short)
    (solid : short.drop (margin short) = c :: t) (tab : c ≠ '\t')
    (left : region = c :: t ++ '\n' :: (after.flatMap blockLine ++
      List.replicate (finalFeeds s) '\n'))
    (inside : k.Inside place (literalBlock s ++ '\n' :: rest)) (resumes : Resumes rest) (fuel : Nat) :
    ∃ behind, blockNode 1 false (fuel + 1) k = some (.text (String.ofList
        (marginText (margin line) (finalFeeds s) (voids ++ line :: before))), behind) ∧
      if gapLength false true region = region.length then behind.skipGap.Opens rest
      else behind.skipGap.isBoundary = false ∧ 0 < behind.skipGap.column := by
  obtain ⟨behind, here, column, free, read⟩ := first.blockNode_ends narrow reach ends solid inside
  refine ⟨behind, by rw [read, if_neg tab], ?_⟩
  have levels := first.levels
  rw [first.found_before, List.forall_mem_append, List.forall_mem_cons] at levels
  have level : ∀ d ∈ c :: t, isBreak d = false := fun d mem =>
    levels.2.1 d (List.mem_of_mem_drop (solid ▸ mem : d ∈ short.drop (margin short)))
  have indented : Indented region := by
    rw [left]
    exact indented_lines (finalFeeds s) level levels.2.2
  have fed : region.getLast? = some '\n' := by
    rw [left]
    exact getLast?_lines (c :: t) after (finalFeeds s)
  have there : behind.rest = region ++ rest := by
    rw [here, left]
    simp
  have gap := Cursor.skipGap_region there resumes column fed indented
  rwa [free] at gap

/-- A line that does not reach over the margin ends the block. The mapping can go on only if what
comes is a gap. -/
theorem FirstLine.ends {s line short : List Char} {voids before after : List (List Char)}
    (first : FirstLine s voids line (before ++ short :: after)) (ret : '\r' ∉ s)
    (narrow : ∀ void ∈ voids, void.length ≤ margin line)
    (reach : ∀ l ∈ before, Reaches (margin line) l) (ends : ¬ Reaches (margin line) short) :
    Stuck (literalBlock s) ∨ Stands (literalBlock s) (.text (String.ofList
      (marginText (margin line) (finalFeeds s) (voids ++ line :: before)))) := by
  obtain ⟨c, t, solid, -⟩ := exists_solid (Bool.eq_false_iff.2 fun void => ends (.inl void))
  by_cases tab : c = '\t'
  · refine .inl ⟨beside_literalBlock ret, fun fuel k _ rest inside _ node next read => ?_⟩
    obtain ⟨_, -, -, -, none⟩ := first.blockNode_ends narrow reach ends solid inside
    rw [none, if_pos tab] at read
    cases read
  generalize left : c :: t ++ '\n' :: (after.flatMap blockLine ++
    List.replicate (finalFeeds s) '\n') = region
  by_cases whole : gapLength false true region = region.length
  · refine .inr ⟨beside_literalBlock ret, fun fuel k _ rest inside resumes => ?_⟩
    obtain ⟨behind, read, opens⟩ :=
      first.skipGap_ends narrow reach ends solid tab left.symm inside resumes fuel
    rw [if_pos whole] at opens
    exact ⟨_, behind, read, rfl, opens⟩
  · refine .inl ⟨beside_literalBlock ret, fun fuel k _ rest inside resumes node next read => ?_⟩
    obtain ⟨behind, read', stops⟩ :=
      first.skipGap_ends narrow reach ends solid tab left.symm inside resumes fuel
    rw [if_neg whole] at stops
    cases read.symm.trans read'
    exact stops

/-- A text of several lines is read back from its block, or as another text, or the mapping cannot
go on behind the block. Where the first line has no margin, all lines belong to the block. -/
theorem literal_cases {s : List Char} (ret : '\r' ∉ s) (filled : ∃ c ∈ s, c ≠ '\n' ∧ c ≠ ' ') :
    Stuck (literalBlock s) ∨ ∃ t, Stands (literalBlock s) (.text (String.ofList t)) ∧
      (t = s → finalFeeds s ≤ 1 ∧ (s.dropWhile (· == '\n')).head? ≠ some ' ') := by
  obtain ⟨voids, line, later, first⟩ := exists_firstLine ret filled
  replace filled : ∃ c ∈ s, c ≠ '\n' := filled.imp fun _ both => ⟨both.1, both.2.1⟩
  have counted := count_space_textLines ret filled
  have inLines : line ∈ blockLines s := by
    rw [blockLines, first.found]
    simp
  by_cases narrow : ∀ void ∈ voids, void.length ≤ margin line
  swap
  · refine .inl ⟨beside_literalBlock ret, fun fuel k _ rest inside _ node next read => ?_⟩
    obtain ⟨start, steps, opens, enough, block⟩ := Cursor.blockNode_literal inside
    have unknown : blockIndent? 1 steps 0 start = none := by
      rw [Option.eq_none_iff_forall_ne_some]
      intro n indent
      exact narrow ((first.blockIndent?_iff opens (by omega)).1 indent).2
    rw [block, unknown] at read
    cases read
  rcases Nat.eq_zero_or_pos (margin line) with flush | deep
  · have stands := first.stands ret narrow fun l _ => .inr (by rw [flush]; exact Nat.zero_le _)
    rw [flush] at stands
    refine .inr ⟨_, stands, fun same => ⟨?_, ?_⟩⟩
    · by_contra several
      exact marginText_zero_ne ret filled (by omega) same
    · refine (first.head_iff ret filled).2 ⟨flush, fun void mem => ?_⟩
      have := narrow void mem
      rwa [flush, Nat.le_zero, List.length_eq_zero_iff] at this
  · rcases forall_or_first (Reaches (margin line)) later
      with reach | ⟨before, short, after, rfl, reach, ends⟩
    · refine .inr ⟨_, first.stands ret narrow reach, fun same => absurd same ?_⟩
      exact marginText_ne inLines deep (by rw [spaces_blockLines, counted]) _
    · rcases first.ends ret narrow reach ends with stuck | stands
      · exact .inl stuck
      · refine .inr ⟨_, stands, fun same => absurd same (marginText_ne (by simp) deep ?_ _)⟩
        rw [counted, first.found_before, spaces_append _ (short :: after)]
        exact Nat.le_add_right _ _

end HostBridge.Yaml
