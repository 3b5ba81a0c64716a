import HostBridge.Decimal.Shortest
import HostBridge.Proofs.Splitting
import HostBridge.Proofs.Text.Digits
import HostBridge.Yaml.Plain

/-!
# Written decimals are read

A decimal number that is laid out with a point, with an exponent, or with zeros on either side is
read as the same number (`Yaml.decimal?_render`): its digits may have got zeros behind them, by which
the power of ten is less.
-/

namespace HostBridge.Yaml

/-! ## Digits -/

theorem digitIn?_of_isDigit {c : Char} (digit : c.isDigit = true) :
    digitIn? 10 c = some (c.toNat - '0'.toNat) := by
  unfold digitIn?
  rw [if_pos digit, Option.filter_some, if_pos]
  have := (Char.isDigit_iff_toNat.1 digit).2
  rw [decide_eq_true_eq]
  have : '9'.toNat = '0'.toNat + 9 := rfl
  omega

theorem natural?_digits {s : List Char} (digits : ∀ c ∈ s, c.isDigit = true) (ne : s ≠ []) :
    natural? 10 s = some (Nat.ofDigitChars 10 s 0) := by
  unfold natural?
  rw [if_neg ne]
  clear ne
  generalize 0 = n
  induction s generalizing n with
  | nil => rfl
  | cons c s ih =>
    rw [List.forall_mem_cons] at digits
    rw [List.foldlM_cons, digitIn?_of_isDigit digits.1, Nat.ofDigitChars_cons]
    exact ih digits.2 _

/-- The digits of a number are read as the number. -/
theorem natural?_toDigits (n : Nat) : natural? 10 (Nat.toDigits 10 n) = some n := by
  rw [natural?_digits isDigit_toDigits Nat.toDigits_ne_nil,
    Nat.ofDigitChars_toDigits (by decide) (by decide)]

theorem isDigit_append {s t : List Char} (left : ∀ c ∈ s, c.isDigit = true)
    (right : ∀ c ∈ t, c.isDigit = true) : ∀ c ∈ s ++ t, c.isDigit = true :=
  fun c mem => (List.mem_append.1 mem).elim (left c) (right c)

theorem splitSign_of_isDigit {c : Char} {s : List Char} (digit : c.isDigit = true) :
    splitSign (c :: s) = (false, c :: s) := by
  unfold splitSign
  split
  · next same =>
    cases same
    exact absurd digit (by decide)
  · next same =>
    cases same
    exact absurd digit (by decide)
  · rfl

theorem splitSign_digits {s : List Char} (digits : ∀ c ∈ s, c.isDigit = true) :
    splitSign s = (false, s) := by
  cases s with
  | nil => rfl
  | cons c s => exact splitSign_of_isDigit (digits c List.mem_cons_self)

/-- An integer is read as it is written. -/
theorem signed?_toString (z : Int) : signed? 10 (toString z).toList = some z := by
  rw [toList_toString_int]
  unfold signed?
  by_cases below : z < 0
  · rw [if_pos below]
    simp only [splitSign, natural?_toDigits, Option.map_some, if_true, Int.ofNat_eq_natCast]
    congr 1
    omega
  · rw [if_neg below, splitSign_digits isDigit_toDigits]
    simp only [natural?_toDigits, Option.map_some, Bool.false_eq_true, if_false, Int.ofNat_eq_natCast]
    congr 1
    omega

/-! ## Decimals -/

/-- Digits with a point among them or at one of their ends. -/
theorem decimal?_point (whole places : List Char) {behind : List Char} {e : Int}
    (digits : ∀ c ∈ whole ++ places, c.isDigit = true) (ne : whole ++ places ≠ [])
    (stops : ∀ c ∈ behind.head?, c.isDigit = false) (exponent : exponent? behind = some e) :
    decimal? (whole ++ '.' :: (places ++ behind)) =
      some (Nat.ofDigitChars 10 (whole ++ places) 0, e - places.length) := by
  have left : ∀ c ∈ whole, c.isDigit = true := fun c mem => digits c (List.mem_append_left _ mem)
  have right : ∀ c ∈ places, c.isDigit = true := fun c mem => digits c (List.mem_append_right _ mem)
  have point (c : Char) (mem : c ∈ ('.' :: (places ++ behind)).head?) : c.isDigit = false := by
    cases mem
    rfl
  unfold decimal?
  rw [takeWhile_stops left point, dropWhile_stops left point]
  simp [takeWhile_stops right stops, dropWhile_stops right stops, natural?_digits digits ne, exponent]

/-- Digits without a point. -/
theorem decimal?_whole {whole behind : List Char} {e : Int}
    (digits : ∀ c ∈ whole, c.isDigit = true) (ne : whole ≠ [])
    (stops : ∀ c ∈ behind.head?, c.isDigit = false ∧ c ≠ '.') (exponent : exponent? behind = some e) :
    decimal? (whole ++ behind) = some (Nat.ofDigitChars 10 whole 0, e) := by
  have digit (c : Char) (mem : c ∈ behind.head?) : c.isDigit = false := (stops c mem).1
  unfold decimal?
  rw [takeWhile_stops digits digit, dropWhile_stops digits digit]
  cases behind with
  | nil => simp [natural?_digits digits ne, exponent]
  | cons c rest =>
    have point : c ≠ '.' := (stops c rfl).2
    simp [natural?_digits digits ne, exponent, point]

/-! ## No decimals -/

theorem decimal?_of_other {c : Char} {t : List Char} (digit : ¬ c.isDigit = true)
    (point : c ≠ '.') : decimal? (c :: t) = none := by
  unfold decimal?
  rw [List.takeWhile_cons_of_neg digit, List.dropWhile_cons_of_neg digit]
  dsimp only
  split
  · next found => exact absurd (List.cons.inj found).1 point
  · rfl

theorem decimal?_of_point {t : List Char} (other : ∀ d ∈ t.head?, ¬ d.isDigit = true) :
    decimal? ('.' :: t) = none := by
  have places : t.takeWhile (fun c => c.isDigit) = [] := by
    cases t with
    | nil => rfl
    | cons d t => exact List.takeWhile_cons_of_neg (other d rfl)
  unfold decimal?
  simp [places, natural?]

/-! ## Layouts -/

section Layouts

variable {s : List Char}

/-- A number below one: zeros behind the point only move the digits. -/
theorem decimal?_small (digits : ∀ c ∈ s, c.isDigit = true) (k : Nat) :
    decimal? (['0', '.'] ++ List.replicate k '0' ++ s) =
      some (Nat.ofDigitChars 10 s 0, -((k + s.length : Nat) : Int)) := by
  have all : ∀ c ∈ ['0'] ++ (List.replicate k '0' ++ s), c.isDigit = true :=
    isDigit_append (@isDigit_replicate 1) (isDigit_append isDigit_replicate digits)
  have read := decimal?_point _ _ all (by simp) (nofun : ∀ c ∈ ([] : List Char).head?, _) rfl
  simp only [List.append_nil, Nat.ofDigitChars_append, ofDigitChars_zeros] at read
  simpa [Nat.ofDigitChars_cons, ofDigitChars_zeros] using read

/-- A great number: the zeros behind its digits are read as digits. -/
theorem decimal?_large (digits : ∀ c ∈ s, c.isDigit = true) (k : Nat) :
    decimal? (s ++ List.replicate k '0' ++ ['.', '0']) =
      some (Nat.ofDigitChars 10 s 0 * 10 ^ (k + 1), -1) := by
  have all : ∀ c ∈ s ++ List.replicate k '0' ++ ['0'], c.isDigit = true :=
    isDigit_append (isDigit_append digits isDigit_replicate) (@isDigit_replicate 1)
  have read := decimal?_point _ _ all (by simp) (nofun : ∀ c ∈ ([] : List Char).head?, _) rfl
  have zero : Nat.ofDigitChars 10 ['0'] = fun n => n * 10 ^ 1 := funext fun n => ofDigitChars_zeros 1 n
  rw [Nat.ofDigitChars_append, Nat.ofDigitChars_append, ofDigitChars_zeros, zero] at read
  simpa [Nat.pow_succ, Nat.mul_assoc] using read

/-- A point among the digits takes as many places from the exponent as there are behind it. -/
theorem decimal?_middle (digits : ∀ c ∈ s, c.isDigit = true) (ne : s ≠ []) (point : Nat) :
    decimal? (s.take point ++ ['.'] ++ s.drop point) =
      some (Nat.ofDigitChars 10 s 0, -((s.length - point : Nat) : Int)) := by
  have whole := List.take_append_drop point s
  have read := decimal?_point (s.take point) (s.drop point) (by rwa [whole]) (by rwa [whole])
    (nofun : ∀ c ∈ ([] : List Char).head?, _) rfl
  rw [whole, List.length_drop] at read
  simpa using read

theorem exponent?_scientific (z : Int) : exponent? (['e'] ++ (toString z).toList) = some z ∧
    ∀ c ∈ (['e'] ++ (toString z).toList).head?, c.isDigit = false ∧ c ≠ '.' := by
  refine ⟨signed?_toString z, fun c mem => ?_⟩
  cases mem
  decide

theorem decimal?_single {first : Char} (digits : ∀ c ∈ [first], c.isDigit = true) (z : Int) :
    decimal? ([first] ++ ['e'] ++ (toString z).toList) =
      some (Nat.ofDigitChars 10 [first] 0, z) := by
  obtain ⟨exponent, stops⟩ := exponent?_scientific z
  rw [List.append_assoc]
  exact decimal?_whole digits (List.cons_ne_nil _ _) stops exponent

/-- A power of ten behind a point: the exponent that is read is less by the digits behind the point.
-/
theorem decimal?_scientific {first second : Char}
    (digits : ∀ c ∈ first :: second :: s, c.isDigit = true) (z : Int) :
    decimal? (first :: '.' :: second :: s ++ ['e'] ++ (toString z).toList) =
      some (Nat.ofDigitChars 10 (first :: second :: s) 0, z - (s.length + 1 : Nat)) := by
  obtain ⟨exponent, stops⟩ := exponent?_scientific z
  have read := decimal?_point [first] (second :: s) digits (List.cons_ne_nil _ _)
    (fun c mem => (stops c mem).1) exponent
  simpa using read

end Layouts

/-- A decimal is read as it was laid out. Zeros that were put behind its digits are read as digits. -/
theorem decimal?_render (x : Decimal.Scaled) (layout : Decimal.Layout) :
    ∃ k : Nat, decimal? (x.render layout) = some (x.digits * 10 ^ k, x.exponent - k) := by
  have digits := @isDigit_toDigits x.digits
  have ne := @Nat.toDigits_ne_nil x.digits 10
  have number := @Nat.ofDigitChars_toDigits 10 x.digits (by decide) (by decide)
  unfold Decimal.Scaled.render
  dsimp only
  generalize Nat.toDigits 10 x.digits = s at digits ne number
  have some := List.length_pos_iff.2 ne
  split
  · split
    · refine ⟨0, ?_⟩
      rw [decimal?_small digits, number, Nat.pow_zero, Nat.mul_one]
      congr 2
      omega
    split
    · refine ⟨(s.length + x.exponent - s.length).toNat + 1, ?_⟩
      rw [decimal?_large digits, number]
      congr 2
      omega
    · refine ⟨0, ?_⟩
      rw [decimal?_middle digits ne, number, Nat.pow_zero, Nat.mul_one]
      congr 2
      omega
  · refine ⟨0, ?_⟩
    rw [Nat.pow_zero, Nat.mul_one]
    match s, ne with
    | [first], _ =>
      dsimp only
      rw [decimal?_single digits, number]
      congr 2
      simp only [List.length_cons, List.length_nil]
      omega
    | first :: second :: rest, _ =>
      dsimp only
      rw [decimal?_scientific digits, number]
      congr 2
      simp only [List.length_cons]
      omega

/-- A laid out decimal begins with a digit. -/
theorem render_head (x : Decimal.Scaled) (layout : Decimal.Layout) :
    ∃ c s, x.render layout = c :: s ∧ c.isDigit = true := by
  have digits := @isDigit_toDigits x.digits
  have ne := @Nat.toDigits_ne_nil x.digits 10
  unfold Decimal.Scaled.render
  dsimp only
  generalize Nat.toDigits 10 x.digits = s at digits ne
  match s, ne with
  | first :: rest, _ =>
    have digit := digits first List.mem_cons_self
    split
    · split
      · exact ⟨'0', _, rfl, rfl⟩
      split
      · exact ⟨first, _, rfl, digit⟩
      · next some _ =>
        obtain ⟨k, point⟩ : ∃ k, ((first :: rest).length + x.exponent).toNat = k + 1 :=
          ⟨((first :: rest).length + x.exponent).toNat - 1, by omega⟩
        rw [point]
        exact ⟨first, _, rfl, digit⟩
    · cases rest with
      | nil => exact ⟨first, _, rfl, digit⟩
      | cons second rest => exact ⟨first, _, rfl, digit⟩

/-- A power of ten is written where the point is out of the layout's range. -/
theorem e_mem_render (x : Decimal.Scaled) (layout : Decimal.Layout) :
    'e' ∈ x.render layout ↔
      ¬ (layout.leastPoint ≤ (Nat.toDigits 10 x.digits).length + x.exponent ∧
        (Nat.toDigits 10 x.digits).length + x.exponent ≤ layout.greatestPoint) := by
  have absent : 'e' ∉ Nat.toDigits 10 x.digits := fun mem =>
    absurd (isDigit_toDigits 'e' mem) (by decide)
  unfold Decimal.Scaled.render
  dsimp only
  generalize Nat.toDigits 10 x.digits = s at absent
  split
  · next plain =>
    refine iff_of_false ?_ (not_not_intro plain)
    split
    · simp [absent]
    split
    · simp [absent]
    · have front : 'e' ∉ s.take (s.length + x.exponent).toNat := fun mem =>
        absent (List.mem_of_mem_take mem)
      have back : 'e' ∉ s.drop (s.length + x.exponent).toNat := fun mem =>
        absent (List.mem_of_mem_drop mem)
      simp [front, back]
  · next powered => exact iff_of_true (by simp) powered

theorem toLower_of_isDigit {c : Char} (digit : c.isDigit = true) : c.toLower = c := by
  have small := (Char.isDigit_iff_toNat.1 digit).2
  unfold Char.toLower
  rw [dif_neg]
  rintro ⟨upper, -⟩
  exact absurd (Nat.le_trans upper small) (by decide)

/-- What begins with a digit is no name of a number. -/
theorem real?_of_isDigit {c : Char} {s : List Char} (digit : c.isDigit = true) (negative : Bool) :
    real? (if negative then '-' :: c :: s else c :: s) =
      (decimal? (c :: s)).map fun (m, e) => .ofDecimal negative m e := by
  have sign : splitSign (if negative then '-' :: c :: s else c :: s) = (negative, c :: s) := by
    cases negative with
    | true => rfl
    | false => exact splitSign_of_isDigit digit
  have other {word : String} (letter : word.toList.head?.all fun c => !c.isDigit) :
      String.ofList ((c :: s).map Char.toLower) ≠ word := by
    rintro rfl
    rw [String.toList_ofList, List.map_cons, List.head?_cons, toLower_of_isDigit digit,
      Option.all_some, digit] at letter
    cases letter
  unfold real?
  rw [sign]
  dsimp only
  rw [if_neg (other (by decide)), if_neg (not_or.2 ⟨other (by decide), other (by decide)⟩)]

end HostBridge.Yaml
