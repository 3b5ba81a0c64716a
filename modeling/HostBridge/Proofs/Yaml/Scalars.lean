import HostBridge.Proofs.Yaml.Margins
import HostBridge.Proofs.Yaml.Quoting
import HostBridge.Proofs.Yaml.Unquoted

/-!
# Written scalars

A `Regular` text stands as it is written exactly if it satisfies `ReadsBack`; any other one is read as
something else, or the mapping cannot go on behind it (`text_cases`). The decimal digits of a number
below `2^63` stand as the number (`stands_digits`).
-/

namespace HostBridge.Yaml

/-- The text is read as it was written. What is left without quotes must be legible. A block must
not hold carriage returns or end in several line feeds, and its first line that is not empty must
not begin with a space. -/
structure ReadsBack (s : List Char) : Prop where
  plain : '\n' ∉ s → writeText s = s → Legible s
  block : '\n' ∈ s → '\r' ∉ s ∧ finalFeeds s ≤ 1 ∧ (s.dropWhile (· == '\n')).head? ≠ some ' '

instance (s : List Char) : Decidable (ReadsBack s) :=
  decidable_of_iff (('\n' ∉ s → writeText s = s → Legible s) ∧
      ('\n' ∈ s → '\r' ∉ s ∧ finalFeeds s ≤ 1 ∧ (s.dropWhile (· == '\n')).head? ≠ some ' '))
    ⟨fun both => ⟨both.1, both.2⟩, fun back => ⟨back.plain, back.block⟩⟩

/-- The text has no tab where the reader looks for a value behind it, and no carriage return where
the reader looks for a key behind it. -/
structure Regular (s : List Char) : Prop where
  tab : '\n' ∉ s → writeText s = s → s.head? ≠ some '\t'
  ret : '\n' ∈ s → '\r' ∉ s

theorem ReadsBack.regular {s : List Char} (back : ReadsBack s) : Regular s :=
  ⟨fun level plain => (back.plain level plain).head, fun feed => (back.block feed).1⟩

theorem not_breaking_of_isSafe {c : Char} (safe : isSafe c = true) :
    ¬ (c == ':' || c == '#' || (c.toNat < 0x20 && c != '\t')) = true := by
  have ne {d : Char} (other : isSafe d = false) : c ≠ d := by
    rintro rfl
    rw [safe] at other
    cases other
  have controls : ∀ n < 0x20, isSafe (Char.ofNat n) = false := by decide
  have printable : ¬ c.toNat < 0x20 := fun control => by
    have := controls _ control
    rw [Char.ofNat_toNat, safe] at this
    cases this
  simp [ne (d := ':') rfl, ne (d := '#') rfl]
  omega

/-- A text of safe characters that does not look like another type can do without quotes. -/
theorem unquoted_of_safe {s : List Char} (ne : s ≠ []) (safe : ∀ c ∈ s, isSafe c = true)
    (untyped : looksTyped s = false) : Unquoted s where
  nonempty := ne
  untyped := untyped
  level := List.any_eq_false.2 fun c mem => not_breaking_of_isSafe (safe c mem)
  head c head := by
    by_cases dash : c = '-'
    · exact .inr ⟨dash, safe⟩
    · refine .inl fun mem => ?_
      have unsafe' : ∀ d ∈ indicators, d ≠ '-' → isSafe d = false :=
        List.all_iff_forall_prop.1 (by decide)
      have := unsafe' c mem dash
      rw [safe c (List.mem_of_head? head)] at this
      cases this
  last last := absurd (safe ' ' (List.mem_of_getLast? last)) (by decide)

/-- The three forms of a written text. -/
theorem writeText_cases (s : List Char) : '\n' ∉ s ∧ writeText s = doubleQuote s ∨
    '\n' ∈ s ∧ writeText s = literalBlock s ∨ '\n' ∉ s ∧ Unquoted s ∧ writeText s = s := by
  unfold writeText
  split
  · next empty =>
    subst empty
    exact .inl ⟨List.not_mem_nil, rfl⟩
  split
  · next ne safe =>
    rw [Bool.and_eq_true, List.all_eq_true, Bool.not_eq_true'] at safe
    exact .inr (.inr ⟨fun mem => absurd (safe.1 _ mem) (by decide),
      unquoted_of_safe ne safe.1 safe.2, rfl⟩)
  split
  · next feed => exact .inr (.inl ⟨feed, rfl⟩)
  split
  · next level _ => exact .inl ⟨level, rfl⟩
  · next ne _ level plain =>
    simp only [Bool.or_eq_true, not_or, Bool.not_eq_true] at plain
    obtain ⟨⟨⟨head, last⟩, untyped⟩, breaking⟩ := plain
    refine .inr (.inr ⟨level, ⟨ne, untyped, breaking, fun c first => .inl fun mem => ?_, ?_⟩, rfl⟩)
    · rw [first] at head
      simp [mem] at head
    · simpa using last

theorem text_ofList_inj {s t : List Char} :
    Value.text (String.ofList t) = .text (String.ofList s) ↔ t = s :=
  ⟨fun same => String.ofList_injective (Value.text.inj same), fun same => same ▸ rfl⟩

/-- A regular text is read back, or something else is read for it, or the mapping cannot go on. -/
theorem text_cases {s : List Char} (regular : Regular s) (filled : ∃ c ∈ s, c ≠ '\n' ∧ c ≠ ' ') :
    Stuck (writeText s) ∧ ¬ ReadsBack s ∨
      ∃ v, Stands (writeText s) v ∧ (v = .text (String.ofList s) ↔ ReadsBack s) := by
  rcases writeText_cases s with ⟨level, quoted⟩ | ⟨feed, block⟩ | ⟨level, unquoted, plain⟩
  · have other : writeText s ≠ s := fun same => by
      have := length_lt_doubleQuote s
      rw [← quoted, same] at this
      exact Nat.lt_irrefl _ this
    rw [quoted]
    exact .inr ⟨_, stands_quoted s, iff_of_true rfl
      ⟨fun _ same => absurd same other, fun feed => absurd feed level⟩⟩
  · have ret := regular.ret feed
    have good (back : ReadsBack s) : Stands (literalBlock s) (.text (String.ofList s)) :=
      stands_literal ret filled (back.block feed).2.1 (back.block feed).2.2
    rw [block]
    rcases literal_cases ret filled with stuck | ⟨t, stands, same⟩
    · exact .inl ⟨stuck, fun back => (good back).not_stuck stuck⟩
    · refine .inr ⟨_, stands, fun text => ?_, fun back => stands.unique (good back)⟩
      exact ⟨fun level => absurd feed level, fun _ => ⟨ret, same (text_ofList_inj.1 text)⟩⟩
  · have readsBack_iff : ReadsBack s ↔ Legible s :=
      ⟨fun back => back.plain level plain,
        fun legible => ⟨fun _ _ => legible, fun feed => absurd feed level⟩⟩
    rw [readsBack_iff, plain]
    exact unquoted.cases (regular.tab level plain)

/-! ## Numbers -/

theorem integer?_digits {s : List Char} (digits : ∀ c ∈ s, c.isDigit = true) (ne : s ≠ []) :
    integer? s = some (Nat.ofDigitChars 10 s 0 : Int) := by
  have absent {c : Char} (other : c.isDigit = false) : c ∉ s := fun mem => by
    rw [digits c mem] at other
    cases other
  have decimal : signed? 10 s = some (Nat.ofDigitChars 10 s 0 : Int) := by
    unfold signed?
    rw [splitSign_digits digits]
    dsimp only
    rw [natural?_digits digits ne]
    rfl
  unfold integer?
  split
  · exact absurd (by simp) (absent (c := 'x') rfl)
  · exact absurd (by simp) (absent (c := 'X') rfl)
  · exact absurd (by simp) (absent (c := 'o') rfl)
  · exact absurd (by simp) (absent (c := 'O') rfl)
  · exact decimal

/-- A text of digits is no word that begins otherwise. -/
theorem digits_ne_word {s : List Char} (digits : ∀ c ∈ s, c.isDigit = true) (ne : s ≠ [])
    {word : String} (other : word.toList.head?.all fun c => !c.isDigit) : String.ofList s ≠ word := by
  rintro rfl
  obtain ⟨c, t, rfl⟩ := List.exists_cons_of_ne_nil ne
  rw [String.toList_ofList, List.head?_cons, Option.all_some, digits c List.mem_cons_self] at other
  cases other

/-- Decimal digits are an integer if it fits in a signed word. -/
theorem ofPlain_digits {n : Nat} (small : n ≤ 0x7FFFFFFFFFFFFFFF) :
    Value.ofPlain (Nat.toDigits 10 n) = .integer n := by
  have digits := @isDigit_toDigits n
  have notWord {words : List String}
      (other : words.all fun word => word.toList.head?.all fun c => !c.isDigit) :
      String.ofList (Nat.toDigits 10 n) ∉ words := fun mem =>
    digits_ne_word digits Nat.toDigits_ne_nil (List.all_eq_true.1 other _ mem) rfl
  have wordSized : isWordSized n = true := by
    unfold isWordSized
    rw [Bool.and_eq_true, decide_eq_true_eq, decide_eq_true_eq]
    change -0x8000000000000000 ≤ (n : Int) ∧ (n : Int) ≤ 0x7FFFFFFFFFFFFFFF
    omega
  unfold Value.ofPlain Value.ofNumber?
  dsimp only
  rw [if_neg (notWord (by decide)), if_neg (notWord (by decide)), if_neg (notWord (by decide)),
    integer?_digits digits Nat.toDigits_ne_nil, Nat.ofDigitChars_toDigits (by decide) (by decide),
    Option.filter_some, if_pos wordSized]
  rfl

theorem bare_digits {s : List Char} (digits : ∀ c ∈ s, c.isDigit = true) (ne : s ≠ []) : Bare s := by
  have other {c d : Char} (mem : c ∈ s) (none : d.isDigit = false) : c ≠ d := by
    rintro rfl
    rw [digits c mem] at none
    cases none
  have solid {c : Char} (mem : c ∈ s) : isSpace c = false ∧ isBreak c = false := by
    unfold isSpace isBreak
    simp [other mem (d := ' ') rfl, other mem (d := '\t') rfl, other mem (d := '\n') rfl,
      other mem (d := '\r') rfl]
  refine ⟨ne, fun c mem => ⟨(solid mem).2, other mem rfl, other mem rfl⟩, ?_, fun c last =>
    (solid (List.mem_of_getLast? last)).1⟩
  rintro c t rfl
  have mem : c ∈ c :: t := List.mem_cons_self
  refine ⟨?_, .inl fun indicator => ?_⟩
  · rw [isGap, (solid mem).1, (solid mem).2]
    rfl
  · have none : ∀ d ∈ indicators, d.isDigit = false := List.all_iff_forall_prop.1 (by decide)
    exact other mem (none c indicator) rfl

/-- The digits of a number below `2^63` stand as that integer. -/
theorem stands_digits {n : Nat} (small : n ≤ 0x7FFFFFFFFFFFFFFF) :
    Stands (Nat.toDigits 10 n) (.integer n) := by
  have bare : Bare (Nat.toDigits 10 n) :=
    bare_digits isDigit_toDigits Nat.toDigits_ne_nil
  have stands := bare.stands (nofun : ∀ b ∈ ([] : List Char), isSpace b = true)
  rwa [List.append_nil, ofPlain_digits small] at stands

end HostBridge.Yaml
