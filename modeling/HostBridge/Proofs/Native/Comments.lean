import HostBridge.Native.Render

/-!
# Where comments end

A compiler joins lines that a backslash continues before it looks for comments. What the writer sets
apart stays apart then, but an asterisk and a slash with nothing but continued lines between them end
the comment, and what follows them in its text is read as code. No other text does that
(`Stmt.readComment?_comment`).
-/

namespace HostBridge

namespace Text

/-! ## How comments are read -/

/-- The text with something new in place of each `x` that a `y` follows, and of that `y`. -/
def replacePair (x y : Char) (new : List Char) : List Char → List Char
  | [] => []
  | [c] => [c]
  | c :: d :: rest =>
    if c = x ∧ d = y then new ++ replacePair x y new rest else c :: replacePair x y new (d :: rest)
  termination_by structural text => text

/-- The text without the line ends behind a backslash, and without those backslashes. -/
def spliceLines (text : List Char) : List Char :=
  replacePair '\\' '\n' [] text

/-- What stands before and behind the first `*/`. -/
def cutAtEnd : List Char → Option (List Char × List Char)
  | [] => none
  | '*' :: '/' :: rest => some ([], rest)
  | c :: rest => (cutAtEnd rest).map fun (inside, behind) => (c :: inside, behind)

/-- What a compiler sees inside a comment that the text begins with, and behind it. -/
def readComment? (text : List Char) : Option (List Char × List Char) :=
  match spliceLines text with
  | '/' :: '*' :: rest => cutAtEnd rest
  | _ => none

/-- Backslashes, each with a line end behind it. -/
def continuations : Nat → List Char
  | 0 => []
  | n + 1 => '\\' :: '\n' :: continuations n

/-- An asterisk and a slash meet once the lines are joined. -/
def HidesEnd (text : List Char) : Prop :=
  ∃ before n behind, text = before ++ '*' :: (continuations (n + 1) ++ '/' :: behind)

/-! ## Pairs of characters -/

section Pairs

variable {x y c d : Char} {new front back text rest : List Char}

theorem replacePair_cons (apart : ¬(c = x ∧ rest.head? = some y)) :
    replacePair x y new (c :: rest) = c :: replacePair x y new rest := by
  cases rest with
  | nil => rfl
  | cons d rest =>
    rw [replacePair, if_neg]
    simpa using apart

/-- No pair goes over the border between the texts. -/
theorem replacePair_append (apart : back.head? ≠ some y) :
    replacePair x y new (front ++ back) = replacePair x y new front ++ replacePair x y new back := by
  fun_induction replacePair x y new front with
  | case1 => rfl
  | case2 c => exact replacePair_cons fun pair => apart pair.2
  | case3 c d rest pair ih => simp [replacePair, pair, ih]
  | case4 c d rest pair ih =>
    rw [List.cons_append, replacePair_cons, ih, List.cons_append]
    simpa using pair

/-- A character that what is new does not begin with was there before. -/
theorem of_replacePair_eq_cons (other : d ≠ c)
    (same : replacePair x y (d :: new) text = c :: rest) :
    ∃ behind, text = c :: behind ∧ replacePair x y (d :: new) behind = rest := by
  cases text with
  | nil => cases same
  | cons first text =>
    by_cases pair : first = x ∧ text.head? = some y
    · obtain ⟨rfl, next⟩ := pair
      obtain ⟨text', rfl⟩ := List.head?_eq_some_iff.1 next
      rw [replacePair, if_pos ⟨rfl, rfl⟩] at same
      exact absurd (List.cons.inj same).1 other
    · rw [replacePair_cons pair] at same
      obtain ⟨rfl, behind⟩ := List.cons.inj same
      exact ⟨text, rfl, behind⟩

theorem splitCommentEnd_eq (text : List Char) :
    splitCommentEnd text = replacePair '*' '/' ['*', ' ', '/'] text := by
  fun_induction splitCommentEnd text with
  | case1 => rfl
  | case2 rest ih => simp [replacePair, ih]
  | case3 c rest other ih =>
    rw [replacePair_cons, ih]
    rintro ⟨rfl, slash⟩
    obtain ⟨rest', rfl⟩ := List.head?_eq_some_iff.1 slash
    exact other rest' rfl rfl

theorem cutAtEnd_cons (apart : ¬(c = '*' ∧ rest.head? = some '/')) :
    cutAtEnd (c :: rest) = (cutAtEnd rest).map fun (inside, behind) => (c :: inside, behind) := by
  rw [cutAtEnd]
  rintro rest' rfl rfl
  exact apart ⟨rfl, rfl⟩

/-- A comment that is not ended goes on in the text behind it. -/
theorem cutAtEnd_append_of_none (opened : cutAtEnd front = none) (apart : back.head? ≠ some '/') :
    cutAtEnd (front ++ back) =
      (cutAtEnd back).map fun (inside, behind) => (front ++ inside, behind) := by
  induction front with
  | nil => simp
  | cons c front ih =>
    by_cases pair : c = '*' ∧ front.head? = some '/'
    · obtain ⟨rfl, slash⟩ := pair
      obtain ⟨rest, rfl⟩ := List.head?_eq_some_iff.1 slash
      cases opened
    · rw [cutAtEnd_cons pair, Option.map_eq_none_iff] at opened
      rw [List.cons_append, cutAtEnd_cons, ih opened, Option.map_map]
      · rfl
      · cases front with
        | nil => exact fun pair => apart pair.2
        | cons => exact pair

/-- A comment that is ended is ended whatever comes behind. -/
theorem cutAtEnd_append_of_some {inside behind : List Char}
    (closed : cutAtEnd front = some (inside, behind)) :
    cutAtEnd (front ++ back) = some (inside, behind ++ back) := by
  induction front generalizing inside with
  | nil => cases closed
  | cons c front ih =>
    by_cases pair : c = '*' ∧ front.head? = some '/'
    · obtain ⟨rfl, slash⟩ := pair
      obtain ⟨rest, rfl⟩ := List.head?_eq_some_iff.1 slash
      cases closed
      rfl
    · rw [cutAtEnd_cons pair, Option.map_eq_some_iff] at closed
      obtain ⟨⟨inside', behind'⟩, closed, same⟩ := closed
      cases same
      rw [List.cons_append, cutAtEnd_cons, ih closed]
      · rfl
      · cases front with
        | nil => cases closed
        | cons => exact pair

end Pairs

/-! ## What hides an end -/

variable {c : Char} {text before behind rest : List Char}

theorem HidesEnd.cons (hides : HidesEnd text) (c : Char) : HidesEnd (c :: text) := by
  obtain ⟨before, n, behind, rfl⟩ := hides
  exact ⟨c :: before, n, behind, rfl⟩

/-- There is a first place where it does. -/
theorem HidesEnd.exists_first (hides : HidesEnd text) : ∃ before n behind,
    text = before ++ '*' :: (continuations (n + 1) ++ '/' :: behind) ∧ ¬HidesEnd before := by
  obtain ⟨before, n, behind, same⟩ := hides
  induction length : before.length using Nat.strongRecOn generalizing before n behind with
  | ind length ih =>
    by_cases earlier : HidesEnd before
    · obtain ⟨before', n', behind', rfl⟩ := earlier
      refine ih before'.length ?_ before' n'
        (behind' ++ '*' :: (continuations (n + 1) ++ '/' :: behind)) ?_ rfl
      · rw [← length, List.length_append, List.length_cons]
        omega
      · simp [same]
    · exact ⟨before, n, behind, same, earlier⟩

theorem spliceLines_cons (apart : ¬(c = '\\' ∧ rest.head? = some '\n')) :
    spliceLines (c :: rest) = c :: spliceLines rest :=
  replacePair_cons apart

/-- Continued lines are joined without a trace. -/
theorem spliceLines_continuations (n : Nat) (text : List Char) :
    spliceLines (continuations n ++ text) = spliceLines text := by
  induction n with
  | zero => rfl
  | succ n ih => exact ih

/-- The first character of joined lines stands behind continued ones. -/
theorem of_spliceLines_eq_cons (same : spliceLines text = c :: rest) :
    ∃ n behind, text = continuations n ++ c :: behind := by
  unfold spliceLines at same
  fun_induction replacePair '\\' '\n' [] text with
  | case1 => cases same
  | case2 => exact ⟨0, [], congrArg (fun c => [c]) (List.cons.inj same).1⟩
  | case3 d e text pair ih =>
    obtain ⟨rfl, rfl⟩ := pair
    obtain ⟨n, behind, rfl⟩ := ih same
    exact ⟨n + 1, behind, rfl⟩
  | case4 d e text _ _ =>
    cases (List.cons.inj same).1
    exact ⟨0, e :: text, rfl⟩

theorem spliceLines_append (apart : rest.head? ≠ some '\n') :
    spliceLines (text ++ rest) = spliceLines text ++ spliceLines rest :=
  replacePair_append apart

/-- No end of a comment goes over the border. -/
theorem splitCommentEnd_append (apart : rest.head? ≠ some '/') :
    splitCommentEnd (text ++ rest) = splitCommentEnd text ++ splitCommentEnd rest := by
  simp only [splitCommentEnd_eq, replacePair_append apart]

theorem splitCommentEnd_continuations (n : Nat) (text : List Char) :
    splitCommentEnd (continuations n ++ text) = continuations n ++ splitCommentEnd text := by
  induction n with
  | zero => rfl
  | succ n ih =>
    show '\\' :: '\n' :: splitCommentEnd (continuations n ++ text) = _
    rw [ih]
    rfl

theorem of_splitCommentEnd_eq_continuations {n : Nat}
    (same : splitCommentEnd text = continuations n ++ '/' :: rest) :
    ∃ behind, text = continuations n ++ '/' :: behind := by
  rw [splitCommentEnd_eq] at same
  induction n generalizing text with
  | zero =>
    obtain ⟨behind, rfl, -⟩ := of_replacePair_eq_cons (by decide) same
    exact ⟨behind, rfl⟩
  | succ n ih =>
    obtain ⟨line, rfl, ended⟩ := of_replacePair_eq_cons (by decide) same
    obtain ⟨next, rfl, joined⟩ := of_replacePair_eq_cons (by decide) ended
    obtain ⟨behind, rfl⟩ := ih joined
    exact ⟨behind, rfl⟩

/-! ## Where the end is -/

/-- Where no end is hidden, what was set apart stays apart: an asterisk that meets a slash after
splicing had continued lines behind it. -/
theorem cutAtEnd_of_not_hidesEnd (clear : ¬HidesEnd text) :
    cutAtEnd (spliceLines (splitCommentEnd text)) = none := by
  fun_induction splitCommentEnd text with
  | case1 => rfl
  | case2 rest ih =>
    have opened := ih fun hides => clear ((hides.cons _).cons _)
    rw [spliceLines_cons (by simp), spliceLines_cons (by simp), spliceLines_cons (by simp),
      cutAtEnd_cons (by simp), cutAtEnd_cons (by simp), cutAtEnd_cons (by simp), opened]
    rfl
  | case3 c rest other ih =>
    have opened := ih fun hides => clear (hides.cons c)
    by_cases continued : c = '\\' ∧ (splitCommentEnd rest).head? = some '\n'
    · obtain ⟨rfl, line⟩ := continued
      obtain ⟨next, same⟩ := List.head?_eq_some_iff.1 line
      rw [same] at opened ⊢
      rw [spliceLines_cons (by simp), cutAtEnd_cons (by simp), Option.map_eq_none_iff] at opened
      exact opened
    · rw [spliceLines_cons continued, cutAtEnd_cons, opened]
      · rfl
      · rintro ⟨rfl, slash⟩
        obtain ⟨_, first⟩ := List.head?_eq_some_iff.1 slash
        obtain ⟨n, _, lines⟩ := of_spliceLines_eq_cons first
        obtain ⟨behind, rfl⟩ := of_splitCommentEnd_eq_continuations lines
        cases n with
        | zero => exact other behind rfl rfl
        | succ n => exact clear ⟨[], n, behind, rfl⟩

/-- The first end that the text hides is the first one when its lines are joined. -/
theorem cutAtEnd_of_first (clear : ¬HidesEnd before) (n : Nat) (behind : List Char) :
    cutAtEnd (spliceLines (splitCommentEnd
        (before ++ '*' :: (continuations (n + 1) ++ '/' :: behind)))) =
      some (spliceLines (splitCommentEnd before), spliceLines (splitCommentEnd behind)) := by
  have split : splitCommentEnd (before ++ '*' :: (continuations (n + 1) ++ '/' :: behind)) =
      splitCommentEnd before ++ '*' :: (continuations (n + 1) ++ '/' :: splitCommentEnd behind) := by
    rw [splitCommentEnd_append (by simp)]
    show _ ++ '*' :: splitCommentEnd (continuations (n + 1) ++ '/' :: behind) = _
    rw [splitCommentEnd_continuations]
    rfl
  rw [split, spliceLines_append (by simp), spliceLines_cons (by simp), spliceLines_continuations,
    spliceLines_cons (by simp),
    cutAtEnd_append_of_none (cutAtEnd_of_not_hidesEnd clear) (by simp)]
  simp [cutAtEnd]

end Text

/-- Read as a compiler does, a comment's code begins with a comment. It goes up to the end of its line
if and only if its text hides no end. If the text does, the comment ends at the first place that does,
and the rest of the text is code. -/
theorem Stmt.readComment?_comment (abi : Abi) (text : String) : ∃ inside behind,
    Text.readComment? ((Stmt.comment text).render abi).toList = some (inside, behind) ∧
      (behind = ['\n'] ↔ ¬Text.HidesEnd text.toList) ∧
      (¬Text.HidesEnd text.toList →
        inside = ' ' :: (Text.spliceLines (Text.splitCommentEnd text.toList) ++ [' '])) ∧
      (Text.HidesEnd text.toList → ∃ before n code,
        text.toList = before ++ '*' :: (Text.continuations (n + 1) ++ '/' :: code) ∧
          ¬Text.HidesEnd before ∧
          inside = ' ' :: Text.spliceLines (Text.splitCommentEnd before) ∧
          behind = Text.spliceLines (Text.splitCommentEnd code) ++ [' ', '*', '/', '\n']) := by
  have code : ((Stmt.comment text).render abi).toList =
      '/' :: '*' :: ' ' :: (Text.splitCommentEnd text.toList ++ [' ', '*', '/', '\n']) := by
    simp [render, lines, commentText]
  have tail : Text.spliceLines [' ', '*', '/', '\n'] = [' ', '*', '/', '\n'] := by decide
  have read : Text.readComment? ((Stmt.comment text).render abi).toList =
      (Text.cutAtEnd (Text.spliceLines (Text.splitCommentEnd text.toList) ++ [' ', '*', '/', '\n'])).map
        fun (inside, behind) => (' ' :: inside, behind) := by
    rw [Text.readComment?, code, Text.spliceLines_cons (by simp), Text.spliceLines_cons (by simp),
      Text.spliceLines_cons (by simp), Text.spliceLines_append (by simp), tail]
    exact Text.cutAtEnd_cons (by simp)
  by_cases hides : Text.HidesEnd text.toList
  · obtain ⟨before, n, code, same, clear⟩ := hides.exists_first
    have cut := Text.cutAtEnd_of_first clear n code
    rw [← same] at cut
    rw [read, Text.cutAtEnd_append_of_some cut]
    refine ⟨_, _, rfl, iff_of_false (fun line => ?_) fun clear => clear hides,
      fun clear => absurd hides clear, fun _ => ⟨before, n, code, same, clear, rfl, rfl⟩⟩
    simpa using congrArg List.length line
  · have opened := Text.cutAtEnd_of_not_hidesEnd hides
    rw [read, Text.cutAtEnd_append_of_none opened (by simp)]
    exact ⟨_, _, rfl, iff_of_true rfl hides, fun _ => rfl, fun hides' => absurd hides' hides⟩

/-- Nothing is set apart in the text, and its second line is code. -/
theorem Stmt.continued_comment_ends_early :
    Text.splitCommentEnd "*\\\n/ stop();".toList = "*\\\n/ stop();".toList ∧
      Text.readComment? ((Stmt.comment "*\\\n/ stop();").render .standard).toList =
        some ([' '], " stop(); */\n".toList) := by
  decide +kernel

end HostBridge
