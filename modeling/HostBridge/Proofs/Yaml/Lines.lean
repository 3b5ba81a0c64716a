import HostBridge.Proofs.Yaml.Places
import HostBridge.Yaml.Writer
import Mathlib.Tactic.NthRewrite

/-!
# Texts as lines

A text is a list of lines (`joinLines`) and the line feeds that end it, and the writer finds both
(`exists_textLines`).
-/

namespace HostBridge.Yaml

/-- The text of lines that all end in a line feed but for the last. -/
def joinLines (lines : List (List Char)) (last : List Char) : List Char :=
  (lines.flatMap fun line => line ++ ['\n']) ++ last

theorem joinLines_cons (line : List Char) (lines : List (List Char)) (last : List Char) :
    joinLines (line :: lines) last = line ++ '\n' :: joinLines lines last := by
  simp [joinLines]

/-- A text that does not end in a line feed has a last line. -/
theorem exists_lines {s : List Char} (ne : s ≠ []) (ends : s.getLast? ≠ some '\n') :
    ∃ lines last, s = joinLines lines last ∧ last ≠ [] ∧ '\n' ∉ last ∧ ∀ line ∈ lines, '\n' ∉ line := by
  induction s with
  | nil => exact absurd rfl ne
  | cons c s ih =>
    cases s with
    | nil =>
      refine ⟨[], [c], rfl, List.cons_ne_nil c [], ?_, nofun⟩
      rw [List.mem_singleton]
      rintro rfl
      exact ends rfl
    | cons d s =>
      obtain ⟨lines, last, same, full, level, levels⟩ := ih (List.cons_ne_nil d s) ends
      by_cases feed : c = '\n'
      · subst feed
        exact ⟨[] :: lines, last, by rw [joinLines_cons, same]; rfl, full, level,
          List.forall_mem_cons.2 ⟨List.not_mem_nil, levels⟩⟩
      · have notFeed {line : List Char} (level : '\n' ∉ line) : '\n' ∉ c :: line := by
          rw [List.mem_cons, not_or]
          exact ⟨Ne.symm feed, level⟩
        cases lines with
        | nil =>
          exact ⟨[], c :: last, by rw [same]; rfl, List.cons_ne_nil c last, notFeed level, nofun⟩
        | cons line lines =>
          rw [List.forall_mem_cons] at levels
          exact ⟨(c :: line) :: lines, last, by rw [same, joinLines_cons, joinLines_cons]; rfl, full,
            level, List.forall_mem_cons.2 ⟨notFeed levels.1, levels.2⟩⟩

theorem textLines_go_line {line before rest : List Char} (feed : '\n' ∉ line)
    (ret : '\r' ∉ before ∧ '\r' ∉ line) : textLines.go before (line ++ '\n' :: rest) =
      (before.reverse ++ line) :: textLines.go [] rest := by
  induction line generalizing before with
  | nil =>
    rw [List.nil_append, textLines.go]
    · rw [List.append_nil]
    · rintro line rfl
      exact ret.1 List.mem_cons_self
  | cons c line ih =>
    simp only [List.mem_cons, not_or] at feed ret
    rw [List.cons_append, textLines.go, ih feed.2, List.reverse_cons, List.append_assoc]
    · rfl
    · exact ⟨List.not_mem_cons_of_ne_of_not_mem ret.2.1 ret.1, ret.2.2⟩
    · exact Ne.symm feed.1

theorem textLines_go_last {last before : List Char} (feed : '\n' ∉ last)
    (ne : before.reverse ++ last ≠ []) : textLines.go before last = [before.reverse ++ last] := by
  induction last generalizing before with
  | nil =>
    rw [List.append_nil] at ne ⊢
    rw [textLines.go, if_neg (mt List.reverse_eq_nil_iff.2 ne)]
  | cons c last ih =>
    simp only [List.mem_cons, not_or] at feed
    have same : (c :: before).reverse ++ last = before.reverse ++ c :: last := by
      rw [List.reverse_cons, List.append_assoc]
      rfl
    rw [textLines.go, ih feed.2, same]
    · rwa [same]
    · exact Ne.symm feed.1

theorem textLines_go_feeds (feeds : Nat) :
    textLines.go [] (List.replicate feeds '\n') = List.replicate feeds [] := by
  induction feeds with
  | zero => rfl
  | succ feeds ih =>
    rw [List.replicate_succ, List.replicate_succ, ← ih]
    rfl

/-- The lines are found again. Of the line feeds that end the text the first one ends its last line,
and the others are lines of their own. -/
theorem textLines_joinLines {lines : List (List Char)} {last : List Char} (full : last ≠ [])
    (level : '\n' ∉ last) (levels : ∀ line ∈ lines, '\n' ∉ line) (feeds : Nat)
    (ret : '\r' ∉ joinLines lines last) :
    textLines (joinLines lines last ++ List.replicate feeds '\n') =
      lines ++ last :: List.replicate (feeds - 1) [] := by
  have whole : textLines.go [] (joinLines lines last ++ List.replicate feeds '\n') =
      lines ++ last :: List.replicate (feeds - 1) [] := by
    induction lines with
    | nil =>
      change '\r' ∉ last at ret
      cases feeds with
      | zero =>
        have here : ([] : List Char).reverse ++ last ≠ [] := full
        change textLines.go [] (last ++ []) = [last]
        rw [List.append_nil, textLines_go_last level here]
        rfl
      | succ feeds =>
        change textLines.go [] (last ++ '\n' :: List.replicate feeds '\n') = _
        rw [textLines_go_line level ⟨List.not_mem_nil, ret⟩, textLines_go_feeds]
        rfl
    | cons line lines ih =>
      rw [List.forall_mem_cons] at levels
      simp only [joinLines_cons, List.mem_append, List.mem_cons, not_or] at ret
      rw [joinLines_cons, List.append_assoc, List.cons_append,
        textLines_go_line levels.1 ⟨List.not_mem_nil, ret.1⟩, ih levels.2 ret.2.2]
      rfl
  unfold textLines
  split
  · next empty =>
    rw [List.append_eq_nil_iff, joinLines, List.append_eq_nil_iff] at empty
    exact absurd empty.1.2 full
  · exact whole

theorem mem_textLines_go {c : Char} {line before s : List Char}
    (there : line ∈ textLines.go before s) (mem : c ∈ line) : c ∈ before ∨ c ∈ s := by
  induction s generalizing before with
  | nil =>
    unfold textLines.go at there
    split at there
    · cases there
    · rw [List.mem_singleton] at there
      subst there
      exact .inl (List.mem_reverse.1 mem)
  | cons d s ih =>
    by_cases feed : d = '\n'
    · subst feed
      unfold textLines.go at there
      rcases List.mem_cons.1 there with rfl | there
      · left
        split at mem
        · exact List.mem_cons_of_mem _ (List.mem_reverse.1 mem)
        · exact List.mem_reverse.1 mem
      · rcases ih there with mem | mem
        · cases mem
        · exact .inr (List.mem_cons_of_mem _ mem)
    · rw [textLines.go] at there
      · rcases ih there with mem | mem
        · rcases List.mem_cons.1 mem with rfl | mem
          · exact .inr List.mem_cons_self
          · exact .inl mem
        · exact .inr (List.mem_cons_of_mem _ mem)
      · exact feed

/-- The lines hold nothing that is not in the text. -/
theorem mem_textLines {c : Char} {line s : List Char} (there : line ∈ textLines s) (mem : c ∈ line) :
    c ∈ s := by
  unfold textLines at there
  split at there
  · cases there
  · exact (mem_textLines_go there mem).resolve_left List.not_mem_nil

/-- What stands before the line feeds that end a text. -/
theorem exists_body (s : List Char) :
    ∃ t, s = t ++ List.replicate (finalFeeds s) '\n' ∧ t.getLast? ≠ some '\n' := by
  have feeds : s.reverse.takeWhile (· == '\n') = List.replicate (finalFeeds s) '\n' :=
    List.eq_replicate_iff.2 ⟨rfl, fun c mem => by
      simpa using List.all_eq_true.1 List.all_takeWhile c mem⟩
  refine ⟨(s.reverse.dropWhile (· == '\n')).reverse, ?_, fun last => ?_⟩
  · nth_rewrite 1 [← dropWhile_reverse_append (· == '\n') s]
    rw [feeds, List.reverse_replicate]
  · exact absurd (getLast?_dropWhile_reverse _ s _ last) (by decide)

/-- A text that does not consist of line feeds alone, and the lines that the writer finds in it. -/
theorem exists_textLines {s : List Char} (ret : '\r' ∉ s) (filled : ∃ c ∈ s, c ≠ '\n') :
    ∃ lines last, last ≠ [] ∧ s = joinLines lines last ++ List.replicate (finalFeeds s) '\n' ∧
      textLines s = lines ++ last :: List.replicate (finalFeeds s - 1) [] ∧
      ∀ line ∈ textLines s, ∀ c ∈ line, isBreak c = false := by
  obtain ⟨t, split, ends⟩ := exists_body s
  have ne : t ≠ [] := by
    rintro rfl
    obtain ⟨c, mem, other⟩ := filled
    rw [split] at mem
    exact other (List.eq_of_mem_replicate mem)
  obtain ⟨lines, last, rfl, full, lastLevel, lineLevels⟩ := exists_lines ne ends
  have found : textLines s = lines ++ last :: List.replicate (finalFeeds s - 1) [] := by
    have ret' := ret
    rw [split, List.mem_append, not_or] at ret'
    nth_rewrite 1 [split]
    exact textLines_joinLines full lastLevel lineLevels _ ret'.1
  refine ⟨lines, last, full, split, found, fun line there c mem => ?_⟩
  rw [isBreak, Bool.or_eq_false_iff, beq_eq_false_iff_ne, beq_eq_false_iff_ne]
  constructor
  · rintro rfl
    rw [found, List.mem_append, List.mem_cons] at there
    rcases there with there | rfl | there
    · exact lineLevels line there mem
    · exact lastLevel mem
    · rw [List.eq_of_mem_replicate there] at mem
      cases mem
  · rintro rfl
    exact ret (mem_textLines there mem)

/-- The lines with their ends are the text, with an end for its last line. -/
theorem flatMap_textLines {s : List Char} (ret : '\r' ∉ s) (filled : ∃ c ∈ s, c ≠ '\n') :
    ((textLines s).flatMap fun line => line ++ ['\n']) =
      s ++ List.replicate (1 - finalFeeds s) '\n' := by
  obtain ⟨lines, last, -, split, found, -⟩ := exists_textLines ret filled
  have ends (n : Nat) : ((List.replicate n []).flatMap fun line => line ++ ['\n']) =
      List.replicate n '\n' := by
    induction n with
    | zero => rfl
    | succ n ih =>
      rw [List.replicate_succ, List.flatMap_cons, ih]
      rfl
  rw [found, List.flatMap_append, List.flatMap_cons, ends]
  nth_rewrite 2 [split]
  rw [joinLines, List.append_assoc, List.append_assoc, List.append_assoc]
  congr 2
  cases finalFeeds s with
  | zero => rfl
  | succ n => simp [List.replicate_succ]

end HostBridge.Yaml
