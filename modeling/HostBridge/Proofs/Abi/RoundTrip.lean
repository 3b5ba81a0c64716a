import HostBridge.Abi.Document
import HostBridge.Proofs.Yaml.Mappings

/-!
# An `Abi` that is written and read back

The document of an `Abi` has one line for each field (`rawYaml_eq`), and the uniform line endings
leave it as it is (`toYamlChars_eq`). An `Abi` without a fault is read back from it if its texts
read back and its indentation can be written; of those whose texts are regular, no others are
(`roundTrips_cases`).

Not all texts read back: the writer sees no number in `NaN`, where the reader does
(`nan_not_roundTrips`).
-/

namespace HostBridge

open Yaml (FieldLine Value Stands Stuck linesText)

namespace Abi

/-! ## Texts -/

theorem fault?_eq_none_iff (a : Abi) : a.fault? = none ↔
    (∀ field ∈ a.symbols, Text.allBlank field.2 = false) ∧ isSlotPrefix a.slotPrefix = true := by
  unfold fault?
  cases found : a.symbols.find? fun field => Text.allBlank field.2 with
  | some field =>
    refine iff_of_false nofun fun both => ?_
    have blank := List.find?_some found
    rw [both.1 field (List.mem_of_find?_eq_some found)] at blank
    cases blank
  | none =>
    rw [List.find?_eq_none] at found
    have filled : ∀ field ∈ a.symbols, Text.allBlank field.2 = false := fun field mem => by
      simpa using found field mem
    rw [and_iff_right filled]
    dsimp only
    split
    · next sound => exact iff_of_true rfl sound
    · next unsound => exact iff_of_false nofun unsound

/-- A text that is not blank holds more than line feeds and spaces. -/
theorem filled_of_not_blank {s : String} (filled : Text.allBlank s = false) :
    ∃ c ∈ s.toList, c ≠ '\n' ∧ c ≠ ' ' := by
  obtain ⟨c, mem, solid⟩ := List.all_eq_false.1 filled
  refine ⟨c, mem, ?_, ?_⟩ <;> rintro rfl <;> exact solid (by decide)

theorem filled_of_isSlotPrefix {s : String} (sound : isSlotPrefix s = true) :
    ∃ c ∈ s.toList, c ≠ '\n' ∧ c ≠ ' ' := by
  unfold isSlotPrefix at sound
  rw [Bool.and_eq_true, List.all_eq_true] at sound
  obtain ⟨ne, names⟩ := sound
  cases chars : s.toList with
  | nil =>
    rw [String.toList_eq_nil_iff.1 chars] at ne
    cases ne
  | cons c t =>
    have name := names c (by rw [chars]; exact List.mem_cons_self)
    refine ⟨c, List.mem_cons_self, ?_, ?_⟩ <;> rintro rfl <;> exact absurd name (by decide)

theorem filled_of_sound {a : Abi} (sound : a.fault? = none) :
    ∀ field ∈ a.textFields, ∃ c ∈ field.2.toList, c ≠ '\n' ∧ c ≠ ' ' := by
  obtain ⟨filled, slot⟩ := a.fault?_eq_none_iff.1 sound
  intro field mem
  by_cases prefixed : field.2 = a.slotPrefix
  · rw [prefixed]
    exact filled_of_isSlotPrefix slot
  · apply filled_of_not_blank
    obtain ⟨symbol, mem', same⟩ : ∃ symbol ∈ a.symbols, symbol.2 = field.2 := by
      unfold textFields at mem
      unfold Abi.symbols
      simp only [List.mem_cons, List.not_mem_nil, or_false] at mem
      rcases mem with rfl | rfl | rfl | rfl | rfl | rfl | rfl | rfl | rfl <;> simp at prefixed ⊢
    rw [← same]
    exact filled symbol mem'

/-- What has to hold of the contents of the fields. -/
structure ReadsBack (a : Abi) : Prop where
  texts : ∀ field ∈ a.textFields, Yaml.ReadsBack field.2.toList
  indent : a.indentWidth ≤ greatestWrittenIndent

/-- No text has a tab or a carriage return that misleads the reader. -/
def Regular (a : Abi) : Prop :=
  ∀ field ∈ a.textFields, Yaml.Regular field.2.toList

theorem ReadsBack.regular {a : Abi} (back : a.ReadsBack) : a.Regular :=
  fun field mem => (back.texts field mem).regular

/-! ## Lines -/

/-- The line of a field with text, of which the written key, the text and the name are given. -/
def textLine (field : (String × String) × String) : FieldLine :=
  ⟨field.1.1.toList, field.2, Yaml.writeText field.1.2.toList⟩

/-- The lines of the fields with text. -/
def textLines (a : Abi) : List FieldLine :=
  (a.textFields.zip fieldNames).map textLine

/-- The line of the indentation. -/
def indentLine (a : Abi) : FieldLine :=
  ⟨"indent_width".toList, "indent_width", Nat.toDigits 10 a.indentWidth⟩

/-- The lines of the document. -/
def fieldLines (a : Abi) : List FieldLine :=
  a.textLines ++ [a.indentLine]

theorem rawYaml_eq (a : Abi) : a.rawYaml = linesText a.fieldLines := by
  have fields : (a.textFields.zip fieldNames).map Prod.fst = a.textFields := rfl
  have texts : linesText a.textLines =
      a.textFields.flatMap fun field => fieldLine field.1 (Yaml.writeText field.2.toList) := by
    rw [← fields, List.flatMap_map, textLines, linesText, List.flatMap_map]
    rfl
  have indent : linesText [a.indentLine] =
      fieldLine "indent_width" (Nat.toDigits 10 a.indentWidth) := List.append_nil _
  rw [rawYaml, ← texts, ← indent, fieldLines, linesText, linesText, linesText, List.flatMap_append]

/-- Every name of a field is written so that it names the field. -/
theorem names_fields (a : Abi) : ∀ field ∈ a.textFields.zip fieldNames,
    Yaml.Names field.1.1.toList field.2 := by
  unfold textFields fieldNames
  simp only [List.zip_cons_cons, List.zip_nil_left, List.forall_mem_cons]
  refine ⟨Yaml.names_word (c := 'h') (by decide) (by decide), Yaml.names_quoted "null".toList,
    Yaml.names_word (c := 'x') (by decide) (by decide),
    Yaml.names_word (c := 'x') (by decide) (by decide),
    Yaml.names_word (c := 'h') (by decide) (by decide),
    Yaml.names_word (c := 'c') (by decide) (by decide),
    Yaml.names_word (c := 'u') (by decide) (by decide),
    Yaml.names_word (c := 'b') (by decide) (by decide),
    Yaml.names_word (c := 't') (by decide) (by decide), nofun⟩

/-- What comes of the value on a line. -/
theorem textFields_cases {a : Abi} (sound : a.fault? = none) (regular : a.Regular) :
    ∀ field ∈ a.textFields,
      Stuck (Yaml.writeText field.2.toList) ∧ ¬ Yaml.ReadsBack field.2.toList ∨
      ∃ v, Stands (Yaml.writeText field.2.toList) v ∧
        (v = .text field.2 ↔ Yaml.ReadsBack field.2.toList) := by
  intro field mem
  have cases := Yaml.text_cases (regular field mem) (filled_of_sound sound field mem)
  rwa [String.ofList_toList] at cases

/-- The value on every line stands for something, or else the text on it is not read back. -/
theorem fieldLines_cases {a : Abi} (sound : a.fault? = none) (regular : a.Regular)
    (indent : a.indentWidth ≤ greatestWrittenIndent) :
    ∀ l ∈ a.fieldLines, (∃ v, Stands l.value v) ∨ Stuck l.value ∧ ¬ a.ReadsBack := by
  unfold fieldLines textLines
  rw [List.forall_mem_append, List.forall_mem_singleton, List.forall_mem_map]
  refine ⟨fun field mem => ?_, .inl ⟨_, Yaml.stands_digits indent⟩⟩
  have text := (List.of_mem_zip mem).1
  rcases textFields_cases sound regular field.1 text with ⟨stuck, broken⟩ | ⟨v, stands, -⟩
  · exact .inr ⟨stuck, fun back => broken (back.texts field.1 text)⟩
  · exact .inl ⟨v, stands⟩

theorem fieldLines_wellFormed {a : Abi} (sound : a.fault? = none) (regular : a.Regular)
    (indent : a.indentWidth ≤ greatestWrittenIndent) : ∀ l ∈ a.fieldLines, l.WellFormed := by
  intro l mem
  refine ⟨?_, ?_⟩
  · unfold fieldLines textLines at mem
    rw [List.mem_append, List.mem_singleton, List.mem_map] at mem
    rcases mem with ⟨field, there, rfl⟩ | rfl
    · exact a.names_fields field there
    · exact Yaml.names_word (c := 'i') (by decide) (by decide)
  · rcases fieldLines_cases sound regular indent l mem with ⟨v, stands⟩ | ⟨stuck, -⟩
    · exact stands.toBeside
    · exact stuck.toBeside

/-- What the values on the lines stand for says whether the texts are read back. -/
theorem readsBack_iff_of_stands {a : Abi} (sound : a.fault? = none) (regular : a.Regular)
    (indent : a.indentWidth ≤ greatestWrittenIndent) {means : FieldLine → Value}
    (stands : ∀ l ∈ a.fieldLines, Stands l.value (means l)) :
    a.ReadsBack ↔ ∀ field ∈ a.textFields.zip fieldNames, means (textLine field) = .text field.1.2 := by
  have each : ∀ field ∈ a.textFields.zip fieldNames,
      means (textLine field) = .text field.1.2 ↔ Yaml.ReadsBack field.1.2.toList := by
    intro field mem
    have here : textLine field ∈ a.fieldLines := List.mem_append_left _ (List.mem_map_of_mem mem)
    rcases textFields_cases sound regular field.1 (List.of_mem_zip mem).1
      with ⟨stuck, -⟩ | ⟨v, stands', same⟩
    · exact absurd stuck (stands _ here).not_stuck
    · rw [(stands _ here).unique stands', same]
  have fields : a.textFields = (a.textFields.zip fieldNames).map Prod.fst := rfl
  constructor
  · intro back field mem
    exact (each field mem).2 (back.texts field.1 (List.of_mem_zip mem).1)
  · intro all
    refine ⟨?_, indent⟩
    rw [fields, List.forall_mem_map]
    exact fun field mem => (each field mem).1 (all field mem)

/-! ## Fields -/

/-- Fields that are all known and different are set one after the other, or not at all. -/
theorem takeFields_lines {a : Abi} {seen : List String} {lines : List FieldLine}
    {fields : List Yaml.Field} {means : FieldLine → Value}
    (all : List.Forall₂ FieldLine.Is lines fields) (stands : ∀ l ∈ lines, Stands l.value (means l))
    (known : ∀ l ∈ lines, l.name ∈ fieldNames) (fresh : ∀ l ∈ lines, l.name ∉ seen)
    (different : (lines.map (·.name)).Nodup) : a.takeFields seen fields =
      (a.setAll (lines.map fun l => (l.name, .ofYaml (means l)))).elim (.error .refused) .ok := by
  induction all generalizing a seen with
  | nil => rfl
  | cons is _ ih =>
    rename_i l field lines fields _
    obtain ⟨key, value⟩ := field
    rw [List.forall_mem_cons] at stands known fresh
    rw [List.map_cons, List.nodup_cons] at different
    obtain ⟨v, stands', read⟩ := is.value
    rw [stands'.unique stands.1] at read
    rw [takeFields, is.name]
    dsimp only
    rw [is.merge, if_neg Bool.false_ne_true, if_neg (not_not.2 known.1), if_neg fresh.1, read]
    dsimp only
    rw [List.map_cons, setAll]
    cases a.set l.name (.ofYaml (means l)) with
    | none => rfl
    | some next =>
      refine ih stands.2 known.2 (fun l' mem => ?_) different.2
      rw [List.mem_cons, not_or]
      refine ⟨?_, fresh.2 l' mem⟩
      rintro same
      exact different.1 (List.mem_map.2 ⟨l', mem, same⟩)

theorem ofYaml_eq_text {v : Value} {s : String} : FieldValue.ofYaml v = .text s ↔ v = .text s := by
  refine ⟨fun same => ?_, fun same => same ▸ rfl⟩
  unfold FieldValue.ofYaml at same
  split at same
  · cases same
    rfl
  · cases same
  · split at same <;> cases same
  · cases same

/-- All fields but the indentation take nothing but text. -/
theorem text_of_set {a b : Abi} {name : String} {value : FieldValue}
    (known : name ∈ fieldNames.take 9) (set : a.set name value = some b) : ∃ s, value = .text s := by
  simp only [fieldNames, List.take_succ_cons, List.take_zero, List.mem_cons, List.not_mem_nil,
    or_false] at known
  cases value with
  | text s => exact ⟨s, rfl⟩
  | natural n =>
    rcases known with rfl | rfl | rfl | rfl | rfl | rfl | rfl | rfl | rfl <;> cases set
  | other =>
    rcases known with rfl | rfl | rfl | rfl | rfl | rfl | rfl | rfl | rfl <;> cases set

theorem text_of_setAll {a b : Abi} {values : List (String × FieldValue)}
    {rest : List (String × FieldValue)} (known : ∀ value ∈ values, value.1 ∈ fieldNames.take 9)
    (set : a.setAll (values ++ rest) = some b) : ∀ value ∈ values, ∃ s, value.2 = .text s := by
  induction values generalizing a with
  | nil => exact nofun
  | cons value values ih =>
    rw [List.forall_mem_cons] at known ⊢
    rw [List.cons_append, setAll] at set
    obtain ⟨next, first, set⟩ := Option.bind_eq_some_iff.1 set
    exact ⟨text_of_set known.1 first, ih known.2 set⟩

/-- Ten values make up an `Abi` if they are its own. -/
theorem setAll_eq_some_iff {a : Abi} (indent : a.indentWidth ≤ greatestIndent)
    (values : (String × String) × String → FieldValue) :
    standard.setAll ((a.textFields.zip fieldNames).map (fun field => (field.2, values field)) ++
        [("indent_width", .natural a.indentWidth)]) = some a ↔
      ∀ field ∈ a.textFields.zip fieldNames, values field = .text field.1.2 := by
  constructor
  · intro set
    have names : ∀ value ∈ (a.textFields.zip fieldNames).map fun field => (field.2, values field),
        value.1 ∈ fieldNames.take 9 := by
      rw [List.forall_mem_map]
      intro field mem
      exact List.mem_map_of_mem (f := Prod.snd) mem
    have texts := text_of_setAll names set
    rw [List.forall_mem_map] at texts
    choose! text texts using texts
    rw [List.map_congr_left fun field mem => congrArg (Prod.mk field.2) (texts field mem)] at set
    simp only [textFields, fieldNames, List.zip_cons_cons, List.zip_nil_left, List.map_cons,
      List.map_nil, List.cons_append, List.nil_append, setAll, Abi.set, indent, if_pos,
      Option.bind_eq_bind, Option.bind_some, Option.some_inj] at set
    have same : ∀ field ∈ a.textFields.zip fieldNames, text field = field.1.2 := by
      unfold textFields fieldNames
      simp only [List.zip_cons_cons, List.zip_nil_left, List.forall_mem_cons]
      exact ⟨congrArg handleType set, congrArg null set, congrArg incRef set, congrArg decRef set,
        congrArg slotPrefix set, congrArg checkPrefix set, congrArg unboxPrefix set,
        congrArg boxPrefix set, congrArg typeError set, nofun⟩
    intro field mem
    exact (texts field mem).trans (congrArg FieldValue.text (same field mem))
  · intro all
    rw [List.map_congr_left fun field mem => congrArg (Prod.mk field.2) (all field mem)]
    simp [textFields, fieldNames, setAll, Abi.set, indent]

/-- The fields of the document are set one after the other, or not at all. -/
theorem ofFields?_lines {a : Abi} {fields : List Yaml.Field} {means : FieldLine → Value}
    (all : List.Forall₂ FieldLine.Is a.fieldLines fields)
    (stands : ∀ l ∈ a.fieldLines, Stands l.value (means l)) :
    ofFields? fields = standard.setAll (a.fieldLines.map fun l => (l.name, .ofYaml (means l))) := by
  have names : a.fieldLines.map (·.name) = fieldNames := rfl
  have known : ∀ l ∈ a.fieldLines, l.name ∈ fieldNames := fun l mem => by
    rw [← names]
    exact List.mem_map_of_mem mem
  have different : (a.fieldLines.map (·.name)).Nodup := by
    rw [names]
    decide
  unfold ofFields?
  rw [takeFields_lines all stands known (fun _ _ => List.not_mem_nil) different]
  cases standard.setAll (a.fieldLines.map fun l => (l.name, .ofYaml (means l))) <;> rfl

/-- Ten fields make up the `Abi` if the texts on the lines stand for themselves, and only then. -/
theorem setAll_fieldLines {a : Abi} {means : FieldLine → Value}
    (indent : a.indentWidth ≤ greatestWrittenIndent)
    (stands : ∀ l ∈ a.fieldLines, Stands l.value (means l)) :
    standard.setAll (a.fieldLines.map fun l => (l.name, .ofYaml (means l))) = some a ↔
      ∀ field ∈ a.textFields.zip fieldNames, means (textLine field) = .text field.1.2 := by
  have natural : means a.indentLine = .integer a.indentWidth :=
    (stands _ (List.mem_append_right _ (List.mem_singleton_self _))).unique (Yaml.stands_digits indent)
  have settings : (a.fieldLines.map fun l => (l.name, FieldValue.ofYaml (means l))) =
      (a.textFields.zip fieldNames).map (fun field => (field.2, .ofYaml (means (textLine field)))) ++
        [("indent_width", .natural a.indentWidth)] := by
    rw [fieldLines, List.map_append, textLines, List.map_map, List.map_singleton, natural]
    rfl
  rw [settings, setAll_eq_some_iff (Nat.le_trans indent (by decide))]
  exact forall₂_congr fun field _ => ofYaml_eq_text

/-! ## Documents -/

/-- The document is read as the same `Abi` if its texts are read back, and only then: behind a text
that does not stand for anything the mapping cannot go on, and nothing is read. -/
theorem ofYamlChars_rawYaml_iff {a : Abi} (sound : a.fault? = none) (regular : a.Regular)
    (indent : a.indentWidth ≤ greatestWrittenIndent) :
    ofYamlChars a.rawYaml = .ok a ↔ a.ReadsBack := by
  have wellFormed := fieldLines_wellFormed sound regular indent
  rw [rawYaml_eq, ofYamlChars]
  rcases forall_or_first (fun l => ∃ v, Stands l.value v) a.fieldLines
    with stand | ⟨before, l, after, split, stand, none⟩
  · obtain ⟨fields, read, all⟩ := Yaml.document?_lines (by simp [fieldLines]) wellFormed stand
    have : Nonempty Value := ⟨.null⟩
    choose! means stands using stand
    rw [readsBack_iff_of_stands sound regular indent stands, ← setAll_fieldLines indent stands,
      ← ofFields?_lines all stands, read]
    dsimp only
    cases ofFields? fields with
    | none => exact iff_of_false nofun nofun
    | some b =>
      dsimp only
      rw [Option.some_inj]
      constructor
      · intro same
        split at same
        · cases same
        · exact Except.ok.inj same
      · rintro rfl
        rw [sound]
  · have mem : l ∈ a.fieldLines := by
      rw [split]
      exact List.mem_append_right _ List.mem_cons_self
    obtain ⟨stuck, broken⟩ := (fieldLines_cases sound regular indent l mem).resolve_left none
    rw [split] at wellFormed ⊢
    rw [Yaml.document?_stuck wellFormed stand stuck]
    exact iff_of_false nofun broken

/-- What is written is not changed by the uniform line endings. -/
theorem toYamlChars_eq {a : Abi} (sound : a.fault? = none) (regular : a.Regular)
    (indent : a.indentWidth ≤ greatestWrittenIndent) : a.toYamlChars = .ok a.rawYaml := by
  have ret := Yaml.return_not_mem_lines (fieldLines_wellFormed sound regular indent)
  rw [← rawYaml_eq] at ret
  have ends : a.rawYaml.getLast? = some '\n' := by
    rw [rawYaml, fieldLine, List.getLast?_append, List.getLast?_append]
    rfl
  rw [toYamlChars, if_pos indent, Text.normalizeChars_of_not_mem ret ends]

/-- Nothing is written if the indentation is too great. -/
theorem indent_of_roundTrips {a : Abi} (trips : a.roundTrips = true) :
    a.indentWidth ≤ greatestWrittenIndent := by
  by_contra great
  rw [roundTrips, toYaml, toYamlChars, if_neg great] at trips
  cases trips

theorem roundTrips_iff {a : Abi} {document : List Char} (written : a.toYamlChars = .ok document) :
    a.roundTrips = true ↔ ofYamlChars document = .ok a := by
  have text : a.toYaml = .ok (String.ofList document) := by
    rw [toYaml, written]
    rfl
  unfold roundTrips
  rw [text]
  dsimp only
  rw [ofYaml, String.toList_ofList]
  cases ofYamlChars document with
  | error fault => exact iff_of_false nofun nofun
  | ok b =>
    rw [beq_iff_eq]
    exact ⟨fun same => same ▸ rfl, fun same => (Except.ok.inj same).symm⟩

/-- An `Abi` without a fault whose texts read back is read again from its document, which the uniform
line endings do not change. If the texts are regular, no other `Abi` is read again from its own. -/
theorem roundTrips_cases {a : Abi} (sound : a.fault? = none) :
    (a.ReadsBack → a.toYaml = .ok (String.ofList a.rawYaml) ∧
      ofYaml (String.ofList a.rawYaml) = .ok a ∧ a.roundTrips = true) ∧
    (a.Regular → (a.roundTrips = true ↔ a.ReadsBack)) := by
  have exactly (regular : a.Regular) (indent : a.indentWidth ≤ greatestWrittenIndent) :
      a.roundTrips = true ↔ a.ReadsBack := by
    rw [roundTrips_iff (toYamlChars_eq sound regular indent),
      ofYamlChars_rawYaml_iff sound regular indent]
  constructor
  · intro back
    refine ⟨?_, ?_, (exactly back.regular back.indent).2 back⟩
    · rw [toYaml, toYamlChars_eq sound back.regular back.indent]
      rfl
    · rw [ofYaml, String.toList_ofList]
      exact (ofYamlChars_rawYaml_iff sound back.regular back.indent).2 back
  · intro regular
    by_cases indent : a.indentWidth ≤ greatestWrittenIndent
    · exact exactly regular indent
    · exact iff_of_false (fun trips => indent (indent_of_roundTrips trips)) fun back => indent back.indent

/-- Texts of all three forms: words that mean something else, signs, a carriage return, and lines. -/
def unusual : Abi where
  handleType := "null"
  null := "NULL"
  incRef := " # a: \"b\"\r"
  decRef := "- x"
  slotPrefix := "0x1F"
  checkPrefix := "a  b"
  unboxPrefix := "\n\tif (x) \x7b\n    y\n\x7d\n"
  boxPrefix := "true"
  typeError := "1e3"
  indentWidth := 0

theorem unusual_roundTrips : unusual.fault? = none ∧ unusual.ReadsBack ∧ unusual.Regular ∧
    ofYaml (String.ofList unusual.rawYaml) = .ok unusual ∧ unusual.roundTrips = true := by
  have sound : unusual.fault? = none := by decide +kernel
  have back : unusual.ReadsBack := ⟨by decide +kernel, by decide +kernel⟩
  obtain ⟨-, read, -⟩ := (roundTrips_cases sound).1 back
  exact ⟨sound, back, back.regular, read, ((roundTrips_cases sound).2 back.regular).2 back⟩

/-- The writer takes the name of no number for text, and the reader does not. -/
theorem nan_not_roundTrips : ({ standard with incRef := "NaN" } : Abi).fault? = none ∧
    ({ standard with incRef := "NaN" } : Abi).roundTrips = false := by
  have written : ({ standard with incRef := "NaN" } : Abi).toYamlChars =
      .ok ({ standard with incRef := "NaN" } : Abi).rawYaml := by
    decide +kernel
  have refused : ofYamlChars ({ standard with incRef := "NaN" } : Abi).rawYaml ≠
      .ok { standard with incRef := "NaN" } := by
    decide +kernel
  exact ⟨by decide, Bool.eq_false_iff.2 fun trips => refused ((roundTrips_iff written).1 trips)⟩

end Abi

end HostBridge
