import HostBridge.Proofs.Native.Wording
import HostBridge.Proofs.Region.Labelling
import HostBridge.Proofs.Region.Naming
import HostBridge.Proofs.Region.Onward

/-!
# How a region spells its names

The code of a region of built-in values names their native variables and host slots, and what the
body names (`Plan.Assembly.mem_names`). A plan of such values is always built if the body defines no
label (`Plan.Grown.exists_build`). Bindings and labels carry the proof that they are identifiers, so
all depends on the prefix of the host slots: where it begins with a digit, and only there, the host
slots are no identifiers (`Plan.build_spelled`).
-/

namespace HostBridge

/-! ## The names of a region's code -/

namespace Plan

/-- All code of a rung. -/
def Rung.code (r : Rung) : Block :=
  r.fragment.declare ++ (r.fragment.extract ++ (r.fragment.finish ++ r.fragment.cleanup))

/-- The body, which stands between the parts of the rungs, and all code of the rungs name what a
region names. -/
theorem mem_names_layout {abi : Abi} {failed done : Label} {rungs : List Rung} {body : Block}
    {name : String} : name ∈ (layout failed done rungs body).names abi ↔
      (∃ r ∈ rungs, name ∈ r.code.names abi) ∨ name ∈ body.names abi := by
  have comment (text : String) (b : Block) :
      Block.names abi (.comment text :: b) = b.names abi := Block.names_cons ..
  have label (l : Label) (b : Block) : Block.names abi (.label l :: b) = b.names abi :=
    Block.names_cons ..
  have goto (l : Label) (b : Block) : Block.names abi (.goto l :: b) = b.names abi :=
    Block.names_cons ..
  unfold Rung.code
  simp only [layout_eq, declarations, extraction, publication, ladder, exits, Block.names_append,
    comment, label, goto, Block.names_nil, Block.mem_names_flatMap, List.mem_append,
    List.mem_reverse, List.not_mem_nil, and_or_left, exists_or, or_false]
  simp only [or_comm, or_left_comm]

/-- A rung names its native variable and its host slot. -/
theorem Rung.Standard.mem_names {types : String → Option VarType} {below : Label} {r : Rung}
    (standard : r.Standard types below) {abi : Abi} {name : String} :
    name ∈ r.code.names abi ↔ name = r.name ∨ name = abi.slotName r.name := by
  cases standard with
  | @handle b terminal fail type =>
    cases terminal <;>
      simp [Rung.code, Rung.name, Block.names_cons, Stmt.pieces, Piece.name?, Place.render,
        Binding.native, Binding.host] <;> tauto
  | @scalar b terminal fail scalarType declared =>
    cases terminal <;>
      simp [Rung.code, Rung.name, Block.names_cons, Stmt.pieces, Piece.name?, Place.render,
        Binding.host] <;> tauto

theorem mem_names {abi : Abi} {p : Plan} {name : String} :
    name ∈ p.names abi ↔ ∃ e ∈ p.entries, name = e.binding.text ∨ name = abi.slotName e.binding.text := by
  unfold names
  simp only [List.mem_append, List.mem_map, and_or_left, exists_or]
  exact or_congr (exists_congr fun e => and_congr_right fun _ => eq_comm)
    (exists_congr fun e => and_congr_right fun _ => eq_comm)

variable {p : Plan} {abi : Abi}

/-- A region of built-in values names what its plan and its body do. -/
theorem Assembly.mem_names {body : Block} {region : Region} {rungs : List Rung}
    (assembly : p.Assembly body region rungs) (builtIn : ∀ e ∈ p.entries, e.node.IsBuiltIn)
    {name : String} :
    name ∈ region.code.names abi ↔ name ∈ p.names abi ∨ name ∈ body.names abi := by
  have standard (r : Rung) (mem : r ∈ rungs) :
      name ∈ r.code.names abi ↔ name = r.name ∨ name = abi.slotName r.name := by
    obtain ⟨below, above, rfl⟩ := List.append_of_mem mem
    obtain ⟨before, e, after, split, -, raised⟩ := rungs_at_rung assembly.raised
    have there : e ∈ p.entries := by rw [split]; simp
    let types : String → Option VarType := fun _ => some e.varType
    have type : types e.binding.text = some e.varType := rfl
    exact (raised.standard (builtIn e there) type).mem_names
  have bound : (∃ r ∈ rungs, name = r.name ∨ name = abi.slotName r.name) ↔
      ∃ e ∈ p.entries, name = e.binding.text ∨ name = abi.slotName e.binding.text := by
    have all := congrArg (fun texts => ∃ text ∈ texts, name = text ∨ name = abi.slotName text)
      (names_rungsFrom assembly.raised)
    simpa using all
  rw [assembly.code, mem_names_layout, Plan.mem_names, ← bound]
  exact or_congr_left (exists_congr fun r => and_congr_right (standard r))

end Plan

/-! ## Plans of built-in values are built -/

theorem Node.IsBuiltIn.answered {e : Entry} (builtIn : e.node.IsBuiltIn) {fail below : Label} :
    ∀ q ∈ e.inquiries fail below, ∃ code, q.answer = .ok code := by
  unfold Entry.inquiries
  rcases builtIn with ⟨ident, kind⟩ | ⟨type, ident, kind⟩
  all_goals
    rw [kind]
    cases e.terminal <;> simp [Kind.handle, Kind.scalar]

theorem Node.IsBuiltIn.faults {n : Node} (builtIn : n.IsBuiltIn) : n.kind.faults = [] := by
  rcases builtIn with ⟨ident, kind⟩ | ⟨type, ident, kind⟩
  all_goals
    rw [kind]
    rfl

namespace Plan

variable {p : Plan} {abi : Abi}

theorem Grown.started (grown : Grown abi p) : ∃ fresh, Plan.start p.stem abi = .ok fresh := by
  induction grown with
  | @start stem p ok =>
    obtain ⟨_, -, same⟩ := ok_of_bind ok
    cases same
    exact ⟨_, ok⟩
  | bind _ ok ih =>
    obtain ⟨rfl, -⟩ := eq_of_bind ok
    exact ih

/-- Where the hooks define no labels, all are the body's and the region's own. -/
theorem definedLabels_of_unlabelled {label : Ending → Label}
    (unlabelled : ∀ e ∈ p.entries, e.node.kind.Unlabelled) (body : Label → Block) :
    p.definedLabels label body = (body (p.topLabel label)).labels ++ p.ownLabels label := by
  have hooks : p.hookLabels label = [] :=
    List.flatMap_eq_nil_iff.2 (labels_eq_nil_of_unlabelled unlabelled)
  have repeated : p.repeatedLabels = [] := by
    have bound := p.count_repeatedLabels_le label
    rw [hooks] at bound
    exact List.eq_nil_iff_forall_not_mem.2 fun l => List.count_eq_zero.1 (Nat.le_zero.1 (bound l))
  rw [definedLabels, hooks, repeated, List.append_nil, List.nil_append]

/-- Built-in values give all their code and define no label, so nothing is in the way of a region
whose body defines none either. -/
theorem Grown.exists_build (grown : Grown abi p) (builtIn : ∀ e ∈ p.entries, e.node.IsBuiltIn)
    (body : Label → Block) (plain : ∀ target, (body target).labels = []) :
    ∃ region, p.build body = .ok region := by
  obtain ⟨fresh, started⟩ := grown.started
  obtain ⟨label, labels⟩ := labels_of_start started
  have answered : ∀ q ∈ p.inquiries label, ∃ code, q.answer = .ok code := by
    intro q asked
    obtain ⟨⟨e, index⟩, there, asked⟩ := List.mem_flatMap.1 asked
    exact (builtIn e (List.fst_mem_of_mem_zipIdx there)).answered q asked
  obtain ⟨rungs, given, -, built⟩ := build_of_silence labels (findSome?_obstacle? answered)
  have unique : (codeAround label rungs body).labels.Nodup := by
    rw [(labels_codeAround labels given body).nodup_iff,
      definedLabels_of_unlabelled fun e mem => (builtIn e mem).unlabelled, plain, List.nil_append]
    exact labels.nodup_ownLabels
  have sound : ∀ k ∈ p.kinds, k.faults = [] := by
    intro k mem
    obtain ⟨e, there, rfl⟩ := List.mem_map.1 mem
    exact (builtIn e there).faults
  rw [built, (Block.clash?_eq_none_iff _).2 unique, Requirements.collect_of_sound sound]
  exact ⟨_, rfl⟩

end Plan

/-! ## Identifiers -/

/-- Its host slots begin with a digit. -/
def Abi.DigitFirst (abi : Abi) : Prop :=
  ∃ c ∈ abi.slotPrefix.toList.head?, c.isDigit = true

theorem isIdentifierRest_iff {c : Char} :
    isIdentifierRest c = true ↔ isIdentifierStart c = true ∨ c.isDigit = true := by
  unfold isIdentifierRest isIdentifierStart Char.isAlphanum
  grind

theorem isIdentifierStart_of_isDigit {c : Char} (digit : c.isDigit = true) :
    isIdentifierStart c = false := by
  unfold isIdentifierStart Char.isAlpha Char.isUpper Char.isLower
  unfold Char.isDigit at digit
  have underscore : c ≠ '_' := by
    rintro rfl
    cases digit
  rw [beq_eq_false_iff_ne.2 underscore]
  rw [Bool.and_eq_true, decide_eq_true_eq, decide_eq_true_eq] at digit
  grind

/-- The prefix of an `Abi` without fault goes on like an identifier. -/
theorem Abi.isIdentifierRest_of_mem {abi : Abi} (sound : abi.fault? = none) {c : Char}
    (mem : c ∈ abi.slotPrefix.toList) : isIdentifierRest c = true := by
  unfold fault? at sound
  split at sound
  · cases sound
  · split at sound
    · next good =>
      unfold isSlotPrefix at good
      rw [Bool.and_eq_true, List.all_eq_true] at good
      exact good.2 c mem
    · cases sound

/-- Only the first character of the prefix matters to a slot's name. -/
theorem Abi.isIdentifier_slotName_iff {abi : Abi} (sound : abi.fault? = none) {word : String}
    (identifier : isIdentifier word = true) :
    isIdentifier (abi.slotName word) = true ↔ ¬abi.DigitFirst := by
  obtain ⟨first, rest, letters, start, names⟩ := isIdentifier_iff.1 identifier
  have good (c : Char) (mem : c ∈ abi.slotPrefix.toList) : isIdentifierRest c = true :=
    isIdentifierRest_of_mem sound mem
  have filled : abi.slotPrefix.toList ≠ [] := by
    rw [Ne, String.toList_eq_nil_iff]
    exact Plan.slotPrefix_ne_empty sound
  obtain ⟨c, others, chars⟩ := List.exists_cons_of_ne_nil filled
  rw [chars, List.forall_mem_cons] at good
  unfold DigitFirst
  rw [isIdentifier_iff, slotName, String.toList_append, chars, letters]
  simp only [List.head?_cons, Option.mem_some_iff, exists_eq_left']
  constructor
  · rintro ⟨c', rest', same, start', -⟩ digit
    cases same
    rw [isIdentifierStart_of_isDigit digit] at start'
    cases start'
  · intro letter
    refine ⟨c, others ++ first :: rest, rfl, (isIdentifierRest_iff.1 good.1).resolve_right letter, ?_⟩
    rw [List.forall_mem_append, List.forall_mem_cons]
    exact ⟨good.2, isIdentifierRest_iff.2 (.inl start), names⟩

/-- Where all jumps are onward, all labels are defined. -/
theorem Block.Onward.mem_labelsNamed {code : Block} (onward : code.Onward) {abi : Abi} {l : Label} :
    l ∈ code.labelsNamed abi ↔ l ∈ code.labels := by
  rw [Block.mem_labelsNamed]
  refine or_iff_left_of_imp fun target => ?_
  obtain ⟨s, there, target⟩ := Block.mem_targets.1 target
  obtain ⟨i, fetch⟩ := List.mem_iff_getElem?.1 there
  have once := (onward i s l fetch target).1
  exact List.count_pos_iff.1 (Nat.lt_of_lt_of_eq Nat.one_pos once.symm)

/-- All that the code of a block names for itself is an identifier. -/
def Block.Spelled (abi : Abi) (b : Block) : Prop :=
  (∀ name ∈ b.names abi, isIdentifier name = true) ∧
    ∀ l ∈ b.labelsNamed abi, isIdentifier l.text = true

namespace Plan

/-- Let a plan have accepted handles and scalars only, under an `Abi` without fault. Then it is
built without a body. The code names its native variables, its host slots and the labels that it
defines, which are its stem with an ending each. Native variables and labels are identifiers, and
host slots are unless their prefix begins with a digit; so the code is spelled right if and only if
it has no host slot or its prefix does not begin with a digit. Names and labels are those of the
pieces whose texts are the rendered code (`Block.render_eq`), in which each of them stands as a
whole word (`Block.pieces_apart`). -/
theorem build_spelled {p : Plan} {abi : Abi} (sound : abi.fault? = none) (grown : Grown abi p)
    (builtIn : ∀ e ∈ p.entries, e.node.IsBuiltIn) :
    ∃ region, p.build (fun _ => []) = .ok region ∧
      (∀ name, name ∈ region.code.names abi ↔
        ∃ e ∈ p.entries, name = e.binding.text ∨ name = abi.slotName e.binding.text) ∧
      (∀ l, l ∈ region.code.labelsNamed abi ↔ l ∈ region.code.labels) ∧
      (∀ l ∈ region.code.labels, ∃ e : Ending, l.text = p.stem ++ e.text) ∧
      (∀ e ∈ p.entries, isIdentifier e.binding.text = true ∧
        (isIdentifier (abi.slotName e.binding.text) = true ↔ ¬abi.DigitFirst)) ∧
      (region.code.Spelled abi ↔ p.entries = [] ∨ ¬abi.DigitFirst) := by
  obtain ⟨region, built⟩ := grown.exists_build builtIn (fun _ => []) fun _ => rfl
  obtain ⟨rungs, -, assembly⟩ := assembly_of_build built
  have named (name : String) : name ∈ region.code.names abi ↔
      ∃ e ∈ p.entries, name = e.binding.text ∨ name = abi.slotName e.binding.text := by
    rw [assembly.mem_names builtIn, Plan.mem_names]
    simp
  have onward := assembly.onward builtIn (Block.jumpsAhead_nil _)
  have slot (e : Entry) : isIdentifier (abi.slotName e.binding.text) = true ↔ ¬abi.DigitFirst :=
    Abi.isIdentifier_slotName_iff sound e.binding.isIdentifier_text
  refine ⟨region, built, named, fun l => onward.mem_labelsNamed, ?_, ?_, ?_⟩
  · intro l mem
    exact assembly.ending_of_mem (fun e there => (builtIn e there).unlabelled) rfl mem
  · intro e _
    exact ⟨e.binding.isIdentifier_text, slot e⟩
  · constructor
    · rintro ⟨names, -⟩
      rcases List.eq_nil_or_concat p.entries with none | ⟨rest, e, some⟩
      · exact .inl none
      · have mem : e ∈ p.entries := by rw [some]; simp
        exact .inr ((slot e).1 (names _ ((named _).2 ⟨e, mem, .inr rfl⟩)))
    · intro good
      refine ⟨fun name mem => ?_, fun l _ => l.isIdentifier_text⟩
      obtain ⟨e, there, rfl | rfl⟩ := (named name).1 mem
      · exact e.binding.isIdentifier_text
      · rcases good with none | letter
        · rw [none] at there
          cases there
        · exact (slot e).2 letter

/-- The standard prefix begins with a letter. -/
theorem handleAndCounter_build_spelled :
    ∃ region, handleAndCounter.build (fun _ => []) = .ok region ∧
      (∀ name, name ∈ region.code.names .standard ↔ name ∈ ["a", "host_a", "n", "host_n"]) ∧
      region.code.Spelled .standard := by
  obtain ⟨region, built, named, -, -, -, spelled⟩ :=
    build_spelled (by decide +kernel) handleAndCounter_grown handleAndCounter_builtIn
  refine ⟨region, built, fun name => ?_, spelled.2 (.inr ?_)⟩
  · rw [named]
    simp [handleAndCounter, Abi.slotName, Abi.standard]
    tauto
  · rintro ⟨c, mem, digit⟩
    cases mem
    cases digit

/-- A prefix that is accepted, though it begins with a digit. -/
def digitFirst : Abi :=
  { Abi.standard with slotPrefix := "9" }

/-- A handle that is released in the end. -/
def singleHandle : Plan :=
  ⟨"r", "9", [⟨⟨0, .handle 0, none, .empty, none⟩, ⟨"y", rfl⟩, .cleanup⟩]⟩

/-- Its host slot is `9y`. -/
theorem singleHandle_not_spelled :
    digitFirst.fault? = none ∧ Grown digitFirst singleHandle ∧
      (∀ e ∈ singleHandle.entries, e.node.IsBuiltIn) ∧
      ∃ region, singleHandle.build (fun _ => []) = .ok region ∧
        "9y" ∈ region.code.names digitFirst ∧ isIdentifier "9y" = false ∧
        ¬region.code.Spelled digitFirst := by
  have fresh : Plan.start "r" digitFirst = .ok ⟨"r", "9", []⟩ := rfl
  have bound : Plan.bind ⟨"r", "9", []⟩ ⟨0, .handle 0, none, .empty, none⟩ ⟨"y", rfl⟩ .cleanup =
      .ok singleHandle := rfl
  have builtIn : ∀ e ∈ singleHandle.entries, e.node.IsBuiltIn := by
    intro e mem
    cases List.mem_singleton.1 mem
    exact .inl ⟨_, rfl⟩
  obtain ⟨region, built, slot⟩ : ∃ region, singleHandle.build (fun _ => []) = .ok region ∧
      "9y" ∈ region.code.names digitFirst := ⟨_, rfl, by decide +kernel⟩
  refine ⟨by decide +kernel, .bind (.start fresh) bound, builtIn, region, built, slot, rfl, ?_⟩
  rintro ⟨names, -⟩
  cases names _ slot

end Plan

end HostBridge
