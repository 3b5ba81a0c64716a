import HostBridge.Proofs.Yaml.Beside
import HostBridge.Proofs.Yaml.Decimals
import HostBridge.Yaml.Writer

/-!
# Text without quotes

What the writer leaves without quotes is read up to the end of its line, blanks inside it included,
and means text. Three kinds of text are exceptions that the writer overlooks: a single dash, the
names of infinity and of no number without their point, and text with a tab at one of its ends
(`Legible` leaves them out).
-/

namespace HostBridge.Yaml

/-! ## What a plain scalar means -/

/-- The text is a name of infinity or of no number, in either case and perhaps with a sign. -/
def namesNumber (s : List Char) : Bool :=
  String.ofList ((splitSign s).2.map Char.toLower) ∈ ["nan", "inf", "infinity"]

theorem isDigit_of_digitIn? {c : Char} {n : Nat} (digit : digitIn? 10 c = some n) :
    c.isDigit = true := by
  by_cases decimal : c.isDigit = true
  · exact decimal
  exfalso
  unfold digitIn? at digit
  rw [if_neg decimal] at digit
  split at digit
  · rw [Option.filter_eq_some_iff] at digit
    obtain ⟨value, small⟩ := digit
    cases value
    rw [decide_eq_true_eq] at small
    omega
  · split at digit
    · rw [Option.filter_eq_some_iff] at digit
      obtain ⟨value, small⟩ := digit
      cases value
      rw [decide_eq_true_eq] at small
      omega
    · cases digit

/-- A number in base ten begins with a digit. -/
theorem isDigit_of_natural? {c : Char} {s : List Char} {n : Nat}
    (number : natural? 10 (c :: s) = some n) : c.isDigit = true := by
  unfold natural? at number
  rw [if_neg (List.cons_ne_nil c s), List.foldlM_cons] at number
  obtain ⟨_, first, -⟩ := Option.bind_eq_some_iff.1 number
  obtain ⟨digit, value, -⟩ := Option.map_eq_some_iff.1 first
  exact isDigit_of_digitIn? value

theorem not_sign_of_isDigit {c : Char} (digit : c.isDigit = true) : isSign c = false := by
  unfold isSign
  rw [Bool.or_eq_false_iff, beq_eq_false_iff_ne, beq_eq_false_iff_ne]
  constructor <;> rintro rfl <;> exact absurd digit (by decide)

theorem dropWhile_splitSign (s : List Char) :
    s.dropWhile isSign = (splitSign s).2.dropWhile isSign := by
  unfold splitSign
  split <;> rfl

/-- Behind one sign, a number has to go on with a digit, perhaps behind a point. -/
theorem startsNumber_of_digit {c : Char} {s t : List Char} (unsigned : (splitSign s).2 = c :: t)
    (digit : c.isDigit = true) : startsNumber s = true := by
  unfold startsNumber
  rw [dropWhile_splitSign, unsigned, List.dropWhile_cons_of_neg (by rw [not_sign_of_isDigit digit]; decide)]
  split
  · next found =>
    cases found
    exact absurd digit (by decide)
  · next found =>
    cases found
    exact digit
  · next found => cases found

theorem startsNumber_of_point {c : Char} {s t : List Char}
    (unsigned : (splitSign s).2 = '.' :: c :: t) (digit : c.isDigit = true) :
    startsNumber s = true := by
  unfold startsNumber
  rw [dropWhile_splitSign, unsigned]
  exact digit

theorem signed?_eq_none {s : List Char} (other : startsNumber s = false) : signed? 10 s = none := by
  unfold signed?
  cases unsigned : (splitSign s).2 with
  | nil =>
    dsimp only
    rw [unsigned]
    rfl
  | cons c t =>
    cases number : natural? 10 (c :: t) with
    | none =>
      dsimp only
      rw [unsigned, number]
      rfl
    | some n =>
      rw [startsNumber_of_digit unsigned (isDigit_of_natural? number)] at other
      cases other

/-- What does not start like a number is no integer. -/
theorem integer?_eq_none {s : List Char} (other : startsNumber s = false) : integer? s = none := by
  unfold integer?
  split
  · cases other
  · cases other
  · cases other
  · cases other
  · exact signed?_eq_none other

/-- What does not start like a number is no decimal. -/
theorem decimal?_eq_none {s : List Char} (other : startsNumber s = false) :
    decimal? (splitSign s).2 = none := by
  have ne {t : List Char} : startsNumber t = true → s ≠ t := by
    rintro starts rfl
    rw [other] at starts
    cases starts
  cases unsigned : (splitSign s).2 with
  | nil => rfl
  | cons c t =>
    by_cases digit : c.isDigit = true
    · exact absurd rfl (ne (startsNumber_of_digit unsigned digit))
    · by_cases point : c = '.'
      · subst point
        apply decimal?_of_point
        intro d head digit'
        obtain ⟨t', rfl⟩ := List.head?_eq_some_iff.1 head
        exact absurd rfl (ne (startsNumber_of_point unsigned digit'))
      · exact decimal?_of_other digit point

/-- Text that looks like nothing else is text. -/
theorem ofPlain_of_untyped {s : List Char} (untyped : looksTyped s = false)
    (unnamed : namesNumber s = false) : Value.ofPlain s = .text (String.ofList s) := by
  unfold looksTyped at untyped
  simp only [Bool.or_eq_false_iff, decide_eq_false_iff_not] at untyped
  obtain ⟨⟨⟨⟨noNull, noTrue⟩, noFalse⟩, usual⟩, other⟩ := untyped
  have point : pointedReal? (String.ofList s) = none := by
    unfold pointedReal?
    rw [if_neg, if_neg (by rw [usual]; decide)]
    intro mem
    unfold isUnusualNumber at usual
    simp [mem] at usual
  have real : real? s = none := by
    unfold namesNumber at unnamed
    simp only [decide_eq_false_iff_not, List.mem_cons, List.not_mem_nil, or_false, not_or] at unnamed
    obtain ⟨nan, inf⟩ := unnamed
    unfold real?
    dsimp only
    rw [if_neg nan, if_neg (not_or.2 inf), decimal?_eq_none other]
    rfl
  have number : Value.ofNumber? s = none := by
    unfold Value.ofNumber?
    rw [integer?_eq_none other, real, point]
    rfl
  unfold Value.ofPlain
  dsimp only
  rw [if_neg noNull, if_neg noTrue, if_neg noFalse, number]
  rfl

/-- The names of infinity and of what is no number are read as numbers. -/
theorem real?_of_namesNumber {s : List Char} (named : namesNumber s = true) :
    ∃ x, real? s = some x := by
  unfold namesNumber at named
  simp only [decide_eq_true_eq, List.mem_cons, List.not_mem_nil, or_false] at named
  unfold real?
  dsimp only
  rcases named with nan | inf
  · exact ⟨_, if_pos nan⟩
  · by_cases nan : String.ofList ((splitSign s).2.map Char.toLower) = "nan"
    · exact ⟨_, if_pos nan⟩
    · exact ⟨_, by rw [if_neg nan, if_pos inf]⟩

/-- A plain scalar that is text is the text that it is. -/
theorem ofPlain_eq_text {s : List Char} {t : String} (text : Value.ofPlain s = .text t) :
    t = String.ofList s ∧ namesNumber s = false := by
  unfold Value.ofPlain at text
  dsimp only at text
  split at text
  · cases text
  split at text
  · cases text
  split at text
  · cases text
  cases number : Value.ofNumber? s with
  | none =>
    rw [number] at text
    cases text
    refine ⟨rfl, Bool.eq_false_iff.2 fun named => ?_⟩
    obtain ⟨x, real⟩ := real?_of_namesNumber named
    rw [Value.ofNumber?, real] at number
    split at number <;> cases number
  | some v =>
    rw [number] at text
    cases text
    unfold Value.ofNumber? at number
    split at number
    · cases number
    · obtain ⟨x, -, same⟩ := Option.map_eq_some_iff.1 number
      cases same

/-! ## How far text goes -/

theorem isKeyColon_of_ne {inFlow : Bool} {c : Char} {rest : List Char} (other : c ≠ ':') :
    isKeyColon inFlow (c :: rest) = false := by
  unfold isKeyColon
  split
  · next found => exact absurd (List.cons.inj found).1 other
  · rfl

theorem endsPlain_of_ne {c : Char} {rest : List Char} (other : c ≠ ':') :
    endsPlain false (c :: rest) = false := by
  rw [endsPlain, isKeyColon_of_ne other]
  rfl

namespace Cursor

variable {k : Cursor} {line least fuel : Nat} {s rest : List Char}

/-- A key is read up to its colon. -/
theorem extent_key (here : k.rest = s ++ ':' :: ' ' :: rest)
    (name : ∀ c ∈ s, isGap c = false ∧ c ≠ ':') (enough : s.length < fuel) :
    extent false least fuel k = (s, steps s.length k) := by
  induction s generalizing k fuel with
  | nil =>
    obtain ⟨fuel, rfl⟩ : ∃ n, fuel = n + 1 := ⟨fuel - 1, by grind⟩
    unfold extent
    rw [here]
    rfl
  | cons c s ih =>
    obtain ⟨fuel, rfl⟩ : ∃ n, fuel = n + 1 := ⟨fuel - 1, by omega⟩
    rw [List.forall_mem_cons] at name
    obtain ⟨⟨solid, colon⟩, name⟩ := name
    rw [isGap, Bool.or_eq_false_iff] at solid
    have behind : k.step.rest = s ++ ':' :: ' ' :: rest := by
      rw [rest_step, here]
      rfl
    unfold extent
    rw [here]
    dsimp only [List.cons_append]
    rw [if_neg (by rw [solid.2]; decide), if_neg (by rw [solid.1]; decide), endsPlain_of_ne colon,
      ih behind name (by rw [List.length_cons] at enough; omega)]
    rfl

/-- Blanks inside a line lead to a character that is none. -/
theorem exists_blanks {s : List Char} (solid : ∀ c ∈ s.getLast?, isSpace c = false) (ne : s ≠ []) :
    ∃ blanks c t, s = blanks ++ c :: t ∧ (∀ b ∈ blanks, isSpace b = true) ∧ isSpace c = false := by
  induction s with
  | nil => exact absurd rfl ne
  | cons c s ih =>
    cases space : isSpace c with
    | false => exact ⟨[], c, s, rfl, nofun, space⟩
    | true =>
      cases s with
      | nil => cases space.symm.trans (solid c rfl)
      | cons d s =>
        obtain ⟨blanks, e, t, split, all, other⟩ := ih solid (List.cons_ne_nil d s)
        exact ⟨c :: blanks, e, t, by rw [split]; rfl, List.forall_mem_cons.2 ⟨space, all⟩, other⟩

/-- A character that ends nothing belongs to the scalar. -/
theorem extent_solid {c : Char} {t : List Char} (here : k.rest = c :: t)
    (text : isBreak c = false ∧ c ≠ ':' ∧ c ≠ '#') (solid : isSpace c = false) :
    extent false least (fuel + 1) k =
      (c :: (extent false least fuel k.step).1, (extent false least fuel k.step).2) := by
  rw [extent, here]
  dsimp only
  rw [text.1, if_neg Bool.false_ne_true, solid, if_neg Bool.false_ne_true, endsPlain_of_ne text.2.1,
    if_neg Bool.false_ne_true]

/-- Blanks belong to a text if it goes on behind them. -/
theorem extent_blanks {c : Char} {blanks t : List Char} (here : k.rest = blanks ++ c :: t)
    (ne : blanks ≠ []) (all : ∀ b ∈ blanks, isSpace b = true)
    (text : isBreak c = false ∧ c ≠ ':' ∧ c ≠ '#') (solid : isSpace c = false) :
    extent false least (fuel + 1) k =
      (blanks ++ (extent false least fuel (steps blanks.length k)).1,
        (extent false least fuel (steps blanks.length k)).2) := by
  have passed : k.skipWhile isSpace = steps blanks.length k :=
    skipWhile_eq here all fun d head => by
      cases head
      exact solid
  have behind : (steps blanks.length k).rest = c :: t := by
    rw [rest_steps, here, List.drop_left]
  have goesOn : ((c :: t).head?.all (fun d => isBreak d || d == '#') || endsPlain false (c :: t)) =
      false := by
    rw [endsPlain_of_ne text.2.1, List.head?_cons, Option.all_some, text.1]
    simp [text.2.2]
  have upTo := upTo_steps here
  obtain ⟨b, blanks, rfl⟩ := List.exists_cons_of_ne_nil ne
  have space := all b List.mem_cons_self
  have unbroken : isBreak b = false := isBreak_of_isSpace space
  rw [extent, here]
  dsimp only [List.cons_append]
  rw [unbroken, if_neg Bool.false_ne_true, if_pos space, passed, behind, goesOn,
    if_neg Bool.false_ne_true, upTo]
  rfl

/-- At the end of a line text is over, and so it is before the blanks there. -/
theorem extent_end {blanks : List Char} (inside : k.Inside line (blanks ++ '\n' :: rest))
    (all : ∀ b ∈ blanks, isSpace b = true) (resumes : Resumes rest) :
    ∃ next, extent false 1 (fuel + 1) k = ([], next) ∧ next.skipGap.Opens rest := by
  cases blanks with
  | nil =>
    have opens : (k.skipWhile isGap).Opens rest := by
      rw [skipWhile_eq (s := ['\n']) inside.rest (List.forall_mem_singleton.2 rfl) fun c head =>
        not_gap_of_opensKey (resumes c head)]
      exact step_feed inside.rest
    have stops : stopsAt false 1 (k.skipWhile isGap) = true := by
      unfold stopsAt
      rw [opens.indent]
      exact Bool.or_true _
    refine ⟨k.skipWhile isGap, ?_, by rwa [opens.skipGap resumes]⟩
    rw [extent, inside.rest]
    dsimp only [List.nil_append]
    rw [if_pos (by decide), if_pos stops]
  | cons b blanks =>
    have space := all b List.mem_cons_self
    have behind : (k.skipWhile isSpace).rest = '\n' :: rest := by
      rw [skipWhile_eq inside.rest all fun c head => by cases head; rfl, rest_steps, inside.rest,
        List.drop_left]
    refine ⟨k, ?_, skipGap_blanks inside.rest all resumes⟩
    rw [extent, inside.rest]
    dsimp only [List.cons_append]
    rw [isBreak_of_isSpace space, if_neg Bool.false_ne_true, if_pos space, behind]
    rfl

/-- Text is read up to the end of its line, without the blanks there. -/
theorem extent_text {blanks : List Char} (inside : k.Inside line (s ++ (blanks ++ '\n' :: rest)))
    (resumes : Resumes rest) (text : ∀ c ∈ s, isBreak c = false ∧ c ≠ ':' ∧ c ≠ '#')
    (solid : ∀ c ∈ s.getLast?, isSpace c = false) (all : ∀ b ∈ blanks, isSpace b = true)
    (enough : s.length < fuel) :
    ∃ next, extent false 1 fuel k = (s, next) ∧ next.skipGap.Opens rest := by
  induction fuel generalizing k s with
  | zero => omega
  | succ fuel ih =>
    cases s with
    | nil => exact extent_end inside all resumes
    | cons c s =>
      by_cases space : isSpace c = true
      · obtain ⟨gap, d, t, split, spaces, other⟩ := exists_blanks solid (List.cons_ne_nil c s)
        have ne : gap ≠ [] := by
          rintro rfl
          rw [(List.cons.inj split).1, other] at space
          cases space
        have shorter : (d :: t).length < fuel := by
          have lengths := congrArg List.length split
          have := List.length_pos_iff.2 ne
          rw [List.length_append] at lengths
          omega
        rw [split] at text solid inside ⊢
        rw [List.forall_mem_append] at text
        have last : (gap ++ d :: t).getLast? = (d :: t).getLast? := by
          rw [List.getLast?_append, List.getLast?_cons, Option.some_or]
        rw [last] at solid
        rw [List.append_assoc] at inside
        have inside' := inside.steps fun b mem => isBreak_of_isSpace (spaces b mem)
        obtain ⟨next, read, opens⟩ := ih inside' text.2 solid shorter
        refine ⟨next, ?_, opens⟩
        rw [extent_blanks inside.rest ne spaces (text.2 d List.mem_cons_self) other, read]
      · rw [Bool.not_eq_true] at space
        rw [List.forall_mem_cons] at text
        rw [List.length_cons] at enough
        have inside' := inside.step text.1.1
        rw [List.append_eq] at inside'
        have solid' : ∀ d ∈ s.getLast?, isSpace d = false := fun d last =>
          solid d (by rw [List.getLast?_cons, last]; rfl)
        obtain ⟨next, read, opens⟩ := ih inside' text.2 solid' (by omega)
        exact ⟨next, by rw [extent_solid inside.rest text.1 space, read], opens⟩

end Cursor

/-! ## Bare text -/

/-- Text that is a plain scalar up to its end. A dash may come first if no gap follows. -/
structure Bare (s : List Char) : Prop where
  nonempty : s ≠ []
  text : ∀ c ∈ s, isBreak c = false ∧ c ≠ ':' ∧ c ≠ '#'
  head : ∀ c t, s = c :: t → isGap c = false ∧
    (c ∉ indicators ∨ c = '-' ∧ ∃ d t', t = d :: t' ∧ isGap d = false)
  last : ∀ c ∈ s.getLast?, isSpace c = false

theorem isReserved_cases {c : Char} (reserved : isReserved false c = true) :
    c = '#' ∨ c ∈ indicators ∧ c ≠ '-' := by
  have all : ∀ c ∈ [',', '[', ']', '\x7b', '\x7d', '&', '*', '!', '\'', '"', '#', '|', '>'],
      c = '#' ∨ c ∈ indicators ∧ c ≠ '-' := List.all_iff_forall_prop.1 (by decide)
  apply all
  simpa [isReserved, isFlowMark, or_assoc] using reserved

theorem Bare.head_ne {c d : Char} {t : List Char} (bare : Bare (c :: t)) (mem : d ∈ indicators)
    (other : d ≠ '-') : c ≠ d := by
  rintro rfl
  rcases (bare.head c t rfl).2 with absent | ⟨rfl, -⟩
  · exact absent mem
  · exact other rfl

namespace Cursor

variable {k : Cursor} {line least fuel : Nat} {c : Char} {s t rest : List Char}

theorem startsPlain_of_not_mem (here : k.rest = c :: rest) (ordinary : c ∉ indicators)
    (comment : c ≠ '#') (colon : c ≠ ':') (solid : isGap c = false) :
    startsPlain false k = true := by
  have ne {d : Char} (mem : d ∈ indicators) : c ≠ d := by
    rintro rfl
    exact ordinary mem
  have reserved : isReserved false c = false := by
    rw [Bool.eq_false_iff]
    intro reserved
    rcases isReserved_cases reserved with same | ⟨mem, -⟩
    · exact comment same
    · exact ordinary mem
  unfold startsPlain
  rw [here]
  dsimp only
  rw [reserved, solid]
  simp [ne (d := '%') (by decide), ne (d := '-') (by decide), ne (d := '?') (by decide), colon]

theorem startsPlain_of_dash (here : k.rest = '-' :: c :: rest) (solid : isGap c = false) :
    startsPlain false k = true := by
  unfold startsPlain
  rw [here]
  simp [isReserved, isFlowMark, isGap, isSpace, isBreak] at solid ⊢
  simp [solid]

/-- A bare text can be read as a plain scalar. -/
theorem startsPlain_bare (here : k.rest = s ++ rest) (bare : Bare s) : startsPlain false k = true := by
  obtain ⟨c, t, rfl⟩ := List.exists_cons_of_ne_nil bare.nonempty
  obtain ⟨-, colon, comment⟩ := bare.text c List.mem_cons_self
  obtain ⟨solid, ordinary | ⟨rfl, d, t', rfl, solid'⟩⟩ := bare.head c t rfl
  · exact startsPlain_of_not_mem here ordinary comment colon solid
  · exact startsPlain_of_dash here solid'

theorem isItem_bare (here : k.rest = s ++ rest) (bare : Bare s) : k.isItem = false := by
  obtain ⟨c, t, rfl⟩ := List.exists_cons_of_ne_nil bare.nonempty
  obtain ⟨-, ordinary | ⟨rfl, d, t', rfl, solid⟩⟩ := bare.head c t rfl
  · refine isAlone_of_ne here ?_
    rintro rfl
    exact ordinary (by decide)
  · unfold isItem isAlone standsAlone
    rw [here]
    simp [solid]

/-- A character that opens neither brackets nor quotes begins a plain scalar, if anything. -/
theorem inline?_of_plain (here : k.rest = c :: rest)
    (other : c ∉ ['[', '\x7b', '"', '\'']) :
    inline? least k =
      (plain? false least k).map fun (s, behind) => (.plain (String.ofList s), behind) := by
  unfold inline?
  rw [here]
  split
  all_goals first
    | rfl
    | (next found =>
        cases found
        exact absurd (by decide) other)

/-- Bare text is read up to the end of its line, without the blanks there. -/
theorem blockNode_bare {blanks : List Char}
    (inside : k.Inside line (s ++ (blanks ++ '\n' :: rest))) (resumes : Resumes rest)
    (bare : Bare s) (all : ∀ b ∈ blanks, isSpace b = true) :
    ∃ next, blockNode 1 false (fuel + 1) k = some (.plain (String.ofList s), next) ∧
      next.skipGap.Opens rest := by
  have enough : s.length < k.rest.length + 1 := by
    rw [inside.rest, List.length_append]
    omega
  obtain ⟨next, read, opens⟩ := extent_text inside resumes bare.text bare.last all enough
  have plain : plain? false 1 k = some (s, next) := by
    rw [plain?, startsPlain_bare inside.rest bare, if_pos rfl, read]
  have item := isItem_bare inside.rest bare
  obtain ⟨c, t, rfl⟩ := List.exists_cons_of_ne_nil bare.nonempty
  have bracket : c ∉ ['[', '\x7b', '"', '\''] := by
    intro mem
    have all : ∀ d ∈ ['[', '\x7b', '"', '\''], d ∈ indicators ∧ d ≠ '-' :=
      List.all_iff_forall_prop.1 (by decide)
    exact bare.head_ne (all c mem).1 (all c mem).2 rfl
  have block : k.rest.head? ≠ some '|' := by
    rw [inside.rest]
    exact fun same => bare.head_ne (d := '|') (by decide) (by decide) (Option.some.inj same)
  refine ⟨next, ?_, opens⟩
  rw [blockNode, item, if_neg Bool.false_ne_true, Bool.false_and, if_neg Bool.false_ne_true,
    if_neg block, inline?_of_plain inside.rest bracket, plain]
  rfl

end Cursor

/-- A bare text stands for what a plain scalar means, without the blanks behind it. -/
theorem Bare.stands {s blanks : List Char} (bare : Bare s) (all : ∀ b ∈ blanks, isSpace b = true) :
    Stands (s ++ blanks) (.ofPlain s) where
  head := by
    obtain ⟨c, t, rfl⟩ := List.exists_cons_of_ne_nil bare.nonempty
    exact ⟨c, t ++ blanks, rfl, (bare.head c t rfl).1, (bare.text c List.mem_cons_self).2.2⟩
  ret := by
    refine return_not_mem (List.forall_mem_append.2 ⟨fun c mem => (bare.text c mem).1, fun b mem => ?_⟩)
    exact isBreak_of_isSpace (all b mem)
  read _ _ _ _ inside resumes := by
    rw [List.append_assoc] at inside
    obtain ⟨next, read, opens⟩ := Cursor.blockNode_bare inside resumes bare all
    refine ⟨_, next, read, ?_, opens⟩
    rw [Node.value?, String.toList_ofList]

/-- A dash that stands alone is the mark of an item, which cannot stand beside a key. -/
theorem stuck_dash : Stuck ['-'] where
  head := ⟨'-', [], rfl, rfl, by decide⟩
  ret := by decide
  stuck _ k _ rest inside _ node next read := by
    have item : k.isItem = true := by
      unfold Cursor.isItem Cursor.isAlone
      rw [inside.rest]
      rfl
    rw [blockNode, item, if_pos rfl, if_neg Bool.false_ne_true] at read
    cases read

/-! ## What the writer leaves as it is -/

/-- Text that the writer leaves without quotes. -/
structure Unquoted (s : List Char) : Prop where
  nonempty : s ≠ []
  untyped : looksTyped s = false
  level : hasBreaking s = false
  /-- A dash may come first if there is no blank in the text. -/
  head : ∀ c ∈ s.head?, c ∉ indicators ∨ c = '-' ∧ ∀ d ∈ s, isSafe d = true
  last : s.getLast? ≠ some ' '

/-- Text that is read as it stands if it is left without quotes. -/
structure Legible (s : List Char) : Prop where
  unnamed : namesNumber s = false
  dash : s ≠ ['-']
  head : s.head? ≠ some '\t'
  last : s.getLast? ≠ some '\t'

instance (s : List Char) : Decidable (Legible s) :=
  decidable_of_iff (namesNumber s = false ∧ s ≠ ['-'] ∧ s.head? ≠ some '\t' ∧ s.getLast? ≠ some '\t')
    ⟨fun all => ⟨all.1, all.2.1, all.2.2.1, all.2.2.2⟩,
      fun legible => ⟨legible.unnamed, legible.dash, legible.head, legible.last⟩⟩

theorem isGap_of_isSafe {c : Char} (safe : isSafe c = true) : isGap c = false := by
  unfold isGap isSpace isBreak
  simp only [Bool.or_eq_false_iff, beq_eq_false_iff_ne]
  refine ⟨⟨?_, ?_⟩, ?_, ?_⟩ <;> rintro rfl <;> exact absurd safe (by decide)

theorem Unquoted.text {s : List Char} (unquoted : Unquoted s) {c : Char} (mem : c ∈ s) :
    isBreak c = false ∧ c ≠ ':' ∧ c ≠ '#' := by
  have level := List.any_eq_false.1 unquoted.level c mem
  simp only [Bool.or_eq_true, beq_iff_eq, Bool.and_eq_true, decide_eq_true_eq, not_or] at level
  obtain ⟨⟨colon, comment⟩, control⟩ := level
  refine ⟨?_, colon, comment⟩
  unfold isBreak
  rw [Bool.or_eq_false_iff, beq_eq_false_iff_ne, beq_eq_false_iff_ne]
  constructor <;> rintro rfl <;> exact control ⟨by decide, by decide⟩

theorem isSpace_eq_false {c : Char} (space : c ≠ ' ') (tab : c ≠ '\t') : isSpace c = false := by
  unfold isSpace
  rw [Bool.or_eq_false_iff, beq_eq_false_iff_ne, beq_eq_false_iff_ne]
  exact ⟨space, tab⟩

/-- Text without quotes is bare but for blanks at its end. -/
theorem Unquoted.bare {s : List Char} (unquoted : Unquoted s) (dash : s ≠ ['-'])
    (tab : s.head? ≠ some '\t') :
    ∃ t blanks, s = t ++ blanks ∧ (∀ b ∈ blanks, isSpace b = true) ∧ Bare t := by
  have split := dropWhile_reverse_append isSpace s
  have last := getLast?_dropWhile_reverse isSpace s
  have blanks : ∀ b ∈ (s.reverse.takeWhile isSpace).reverse, isSpace b = true := fun b mem =>
    List.all_eq_true.1 List.all_takeWhile b (List.mem_reverse.1 mem)
  generalize (s.reverse.dropWhile isSpace).reverse = t at split last
  generalize (s.reverse.takeWhile isSpace).reverse = u at split blanks
  subst split
  have solid : ∀ c ∈ (t ++ u).head?, isGap c = false := by
    intro c head
    have unbroken := (unquoted.text (List.mem_of_head? head)).1
    rw [isGap, unbroken, Bool.or_false]
    refine isSpace_eq_false ?_ fun same => tab (same ▸ head)
    rintro rfl
    rcases unquoted.head ' ' head with ordinary | ⟨dash, -⟩
    · exact ordinary (by decide)
    · cases dash
  refine ⟨t, u, rfl, blanks, ?_, fun c mem => unquoted.text (List.mem_append_left _ mem), ?_, last⟩
  · rintro rfl
    obtain ⟨b, u, rfl⟩ := List.exists_cons_of_ne_nil unquoted.nonempty
    have space := blanks b List.mem_cons_self
    have := solid b rfl
    rw [isGap, space] at this
    cases this
  · rintro c t rfl
    refine ⟨solid c rfl, ?_⟩
    rcases unquoted.head c rfl with ordinary | ⟨rfl, safe⟩
    · exact .inl ordinary
    · refine .inr ⟨rfl, ?_⟩
      cases t with
      | cons d t => exact ⟨d, t, rfl, isGap_of_isSafe (safe d (by simp))⟩
      | nil =>
        cases u with
        | nil => exact absurd rfl dash
        | cons b u =>
          have space := isGap_of_isSafe (safe b (by simp))
          rw [isGap, blanks b List.mem_cons_self] at space
          cases space

/-- What the writer leaves as it is is read back if it is legible. Otherwise it is read as something
else, or the mapping cannot go on. -/
theorem Unquoted.cases {s : List Char} (unquoted : Unquoted s) (tab : s.head? ≠ some '\t') :
    Stuck s ∧ ¬ Legible s ∨ ∃ v, Stands s v ∧ (v = .text (String.ofList s) ↔ Legible s) := by
  by_cases dash : s = ['-']
  · exact .inl ⟨dash ▸ stuck_dash, fun legible => legible.dash dash⟩
  obtain ⟨t, blanks, split, all, bare⟩ := unquoted.bare dash tab
  refine .inr ⟨.ofPlain t, split ▸ bare.stands all, fun text => ?_, fun legible => ?_⟩
  · obtain ⟨same, unnamed⟩ := ofPlain_eq_text text
    cases String.ofList_injective same
    refine ⟨unnamed, dash, tab, fun last => ?_⟩
    cases bare.last _ last
  · have none : blanks = [] := by
      rcases List.eq_nil_or_concat blanks with none | ⟨before, b, rfl⟩
      · exact none
      · rw [List.concat_eq_append] at all split
        have last : s.getLast? = some b := by
          rw [split, ← List.append_assoc, List.getLast?_concat]
        have space := all b (by simp)
        rw [isSpace, Bool.or_eq_true, beq_iff_eq, beq_iff_eq] at space
        rcases space with rfl | rfl
        · exact absurd last unquoted.last
        · exact absurd last legible.last
    rw [none, List.append_nil] at split
    rw [← split, ofPlain_of_untyped unquoted.untyped legible.unnamed]

end HostBridge.Yaml
