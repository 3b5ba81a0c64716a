import HostBridge.Proofs.Run.Steps
import HostBridge.Region.Requirements
import HostBridge.Value.Kind.Scalar
import HostBridge.Value.Node

/-!
# What a group of values needs

The requirements of a group are collected in two rounds of sorting out: kinds of a type name that
was seen are not asked again, and items that are there are not added again. Where kinds of one type
name answer alike, this comes to a plain rule for each list: all that the values need, one after the
other, with every item at its first place only (`Requirements.collect_plain`).

Whatever the answers are, `collect` is decided by those of the kinds that are asked
(`Requirements.collect_eq`).
-/

namespace HostBridge

/-- The error of a hook that fails, rather than being missing. -/
def fault? {α : Type} (answer : Except ValueError α) : Option ValueError :=
  match supported answer with
  | .ok _ => none
  | .error e => some e

/-- The four things that a build may need, in the order in which a kind is asked for them. -/
inductive Need where
  | compileArgs
  | headers
  | libraries
  | supportCode
  deriving DecidableEq

def Need.all : List Need := [compileArgs, headers, libraries, supportCode]

namespace Kind

/-- The hook for one need. Support code is a single item. -/
def ask (k : Kind) : Need → Except ValueError (List String)
  | .compileArgs => k.compileDependencies
  | .headers => k.headers
  | .libraries => k.libraries
  | .supportCode => k.supportCode.map fun code => [code]

/-- The items that a kind asks for; without the hook there are none. -/
def needed (k : Kind) (need : Need) : List String :=
  match supported (k.ask need) with
  | .ok items? => items?.getD []
  | .error _ => []

/-- The errors of hooks that fail, rather than being missing, in the order of asking. -/
def faults (k : Kind) : List ValueError :=
  Need.all.filterMap fun need => fault? (k.ask need)

/-- The kinds need the same. A missing hook is like any other missing hook. -/
def NeedsLike (k k' : Kind) : Prop :=
  ∀ need, supported (k.ask need) = supported (k'.ask need)

theorem NeedsLike.needed {k k' : Kind} (alike : k.NeedsLike k') : k.needed = k'.needed := by
  funext need
  rw [Kind.needed, alike need, Kind.needed]

theorem NeedsLike.faults {k k' : Kind} (alike : k.NeedsLike k') : k.faults = k'.faults := by
  unfold Kind.faults fault?
  congr
  funext need
  rw [alike need]

theorem supported_ask_supportCode (k : Kind) :
    supported (k.ask .supportCode) =
      (supported k.supportCode).map fun code? => code?.map fun code => [code] := by
  unfold ask
  cases k.supportCode with
  | ok code => rfl
  | error e =>
    change supported (.error e) = (supported (.error e)).map _
    unfold supported
    dsimp only
    split <;> rfl

end Kind

/-! ## Items at their first place -/

theorem eraseDups_append_of_subset {α : Type} [BEq α] [LawfulBEq α] {items more : List α}
    (there : more ⊆ items) : (items ++ more).eraseDups = items.eraseDups := by
  have absent : more.removeAll items = [] := by
    unfold List.removeAll
    rw [List.filter_eq_nil_iff]
    intro item mem
    simp [there mem]
  rw [List.eraseDups_append, absent, List.eraseDups_nil, List.append_nil]

theorem eraseDups_append_append_of_subset {α : Type} [BEq α] [LawfulBEq α] {items there : List α}
    (subset : there ⊆ items) (more : List α) :
    (items ++ there ++ more).eraseDups = (items ++ more).eraseDups := by
  have absent : more.removeAll (items ++ there) = more.removeAll items := by
    unfold List.removeAll
    apply List.filter_congr
    intro item _
    simp [or_iff_left_of_imp (@subset item)]
  rw [List.eraseDups_append, eraseDups_append_of_subset subset, absent, List.eraseDups_append]

/-- Merging keeps each item at its first place. -/
theorem mergeUnique_eraseDups (items more : List String) :
    mergeUnique items.eraseDups more = (items ++ more).eraseDups := by
  unfold mergeUnique
  induction more generalizing items with
  | nil => rw [List.append_nil, List.foldl_nil]
  | cons item rest ih =>
    have snoc : (if item ∈ items.eraseDups then items.eraseDups else items.eraseDups ++ [item]) =
        (items ++ [item]).eraseDups := by
      by_cases mem : item ∈ items
      · rw [if_pos (List.mem_eraseDups.2 mem), eraseDups_append_of_subset (by simpa using mem)]
      · rw [if_neg (mt List.mem_eraseDups.1 mem), List.eraseDups_append]
        simp [List.removeAll, mem, List.eraseDups_cons]
    rw [List.foldl_cons, snoc, ih, List.append_assoc]
    rfl

theorem nodup_eraseDups (items : List String) : items.eraseDups.Nodup := by
  rw [← List.nil_append items, ← mergeUnique_eraseDups]
  exact nodup_mergeUnique items List.nodup_nil

namespace Requirements

/-- The list for one need. -/
def items (r : Requirements) : Need → List String
  | .compileArgs => r.compileArgs
  | .headers => r.headers
  | .libraries => r.libraries
  | .supportCode => r.supportCode

/-- All that the kinds need, every item at its first place. -/
def plain (kinds : List Kind) : Requirements where
  compileArgs := (kinds.flatMap (·.needed .compileArgs)).eraseDups
  headers := (kinds.flatMap (·.needed .headers)).eraseDups
  libraries := (kinds.flatMap (·.needed .libraries)).eraseDups
  supportCode := (kinds.flatMap (·.needed .supportCode)).eraseDups

/-- The plain requirements by the lists they have. -/
theorem items_plain (kinds : List Kind) (need : Need) :
    (plain kinds).items need = (kinds.flatMap (·.needed need)).eraseDups := by
  cases need <;> rfl

/-- The kinds that are asked: those of a type name that was not seen before. -/
def asked (seen : List String) : List Kind → List Kind
  | [] => []
  | k :: rest =>
    if k.typeName ∈ seen then asked seen rest else k :: asked (k.typeName :: seen) rest

/-! ## One kind -/

/-- All four hooks are asked alike. -/
theorem add_eq (r : Requirements) (k : Kind) : r.add k = (do
    let args ← supported (k.ask .compileArgs)
    let headers ← supported (k.ask .headers)
    let libraries ← supported (k.ask .libraries)
    let code ← supported (k.ask .supportCode)
    .ok {
      compileArgs := mergeUnique r.compileArgs (args.getD [])
      headers := mergeUnique r.headers (headers.getD [])
      libraries := mergeUnique r.libraries (libraries.getD [])
      supportCode := mergeUnique r.supportCode (code.getD []) }) := by
  rw [add, k.supported_ask_supportCode]
  cases supported k.supportCode with
  | error e => rfl
  | ok code? => cases code? <;> rfl

/-- A kind is either refused for its first failing hook, or adds what it needs. The hooks are asked
one after the other, and the first failure ends it. -/
theorem add_plain (kinds : List Kind) (k : Kind) :
    (plain kinds).add k = match k.faults.head? with
      | some e => .error e
      | .none => .ok (plain (kinds ++ [k])) := by
  have items (need : Need) : ((kinds ++ [k]).flatMap (·.needed need)).eraseDups =
      mergeUnique (kinds.flatMap (·.needed need)).eraseDups (k.needed need) := by
    rw [mergeUnique_eraseDups, List.flatMap_append, List.flatMap_singleton]
  rw [add_eq]
  unfold plain
  rw [items, items, items, items]
  unfold Kind.faults Kind.needed fault? Need.all
  simp only [List.filterMap_cons, List.filterMap_nil]
  cases supported (k.ask .compileArgs) with
  | error e => rfl
  | ok args? =>
    cases supported (k.ask .headers) with
    | error e => rfl
    | ok headers? =>
      cases supported (k.ask .libraries) with
      | error e => rfl
      | ok libraries? => cases supported (k.ask .supportCode) <;> rfl

/-- Collecting comes to the first failing hook of those that are asked, or else to what these need. -/
theorem addAll_plain (before : List Kind) (seen : List String) (kinds : List Kind) :
    (plain before).addAll seen kinds = match ((asked seen kinds).flatMap (·.faults)).head? with
      | some e => .error e
      | .none => .ok (plain (before ++ asked seen kinds)) := by
  induction kinds generalizing before seen with
  | nil =>
    rw [asked, List.append_nil]
    rfl
  | cons k rest ih =>
    rw [addAll, asked]
    split
    · exact ih before seen
    · rw [add_plain, List.flatMap_cons]
      cases faults : k.faults with
      | cons e _ => rfl
      | nil =>
        rw [List.head?_nil, bind_of_ok rfl, ih, List.append_assoc]
        rfl

/-- Only the kinds that are asked count: their first failure is the error, and otherwise their needs
are collected. -/
theorem collect_eq (kinds : List Kind) :
    collect kinds = match ((asked [] kinds).flatMap (·.faults)).head? with
      | some e => .error e
      | .none => .ok (plain (asked [] kinds)) :=
  addAll_plain [] [] kinds

/-! ## Kinds of one type name -/

theorem asked_subset (seen : List String) (kinds : List Kind) : asked seen kinds ⊆ kinds := by
  induction kinds generalizing seen with
  | nil => exact List.Subset.refl _
  | cons k rest ih =>
    rw [asked]
    split
    · exact List.subset_cons_of_subset k (ih seen)
    · exact List.cons_subset_cons k (ih _)

/-- Nothing is refused where no hook fails. -/
theorem collect_of_sound {kinds : List Kind} (sound : ∀ k ∈ kinds, k.faults = []) :
    collect kinds = .ok (plain (asked [] kinds)) := by
  rw [collect_eq, List.flatMap_eq_nil_iff.2 fun k mem => sound k (asked_subset [] kinds mem)]
  rfl

/-- Whether a kind is asked does not depend on those behind it. -/
theorem asked_append (seen : List String) (kinds more : List Kind) :
    ∃ seen', asked seen (kinds ++ more) = asked seen kinds ++ asked seen' more := by
  induction kinds generalizing seen with
  | nil => exact ⟨seen, rfl⟩
  | cons k rest ih =>
    rw [List.cons_append, asked, asked]
    split
    · exact ih seen
    · obtain ⟨seen', split⟩ := ih (k.typeName :: seen)
      exact ⟨seen', by rw [split, List.cons_append]⟩

/-- If kinds of one type name answer alike, a kind that is not asked would have added nothing. -/
theorem eraseDups_asked {α : Type} [BEq α] [LawfulBEq α] (f : Kind → List α) {seen : List String}
    {kinds : List Kind} (before : List α)
    (known : ∀ k ∈ kinds, k.typeName ∈ seen → f k ⊆ before)
    (alike : ∀ k ∈ kinds, ∀ k' ∈ kinds, k.typeName = k'.typeName → f k = f k') :
    (before ++ (asked seen kinds).flatMap f).eraseDups = (before ++ kinds.flatMap f).eraseDups := by
  induction kinds generalizing seen before with
  | nil => rfl
  | cons k rest ih =>
    have alike' : ∀ k ∈ rest, ∀ k' ∈ rest, k.typeName = k'.typeName → f k = f k' :=
      fun k mem k' mem' => alike k (List.mem_cons_of_mem _ mem) k' (List.mem_cons_of_mem _ mem')
    rw [asked, List.flatMap_cons]
    split
    · next there =>
      have nothing := known k List.mem_cons_self there
      rw [← List.append_assoc, eraseDups_append_append_of_subset nothing]
      exact ih before (fun k mem => known k (List.mem_cons_of_mem _ mem)) alike'
    · rw [List.flatMap_cons, ← List.append_assoc, ← List.append_assoc]
      refine ih _ ?_ alike'
      intro k' mem there
      rcases List.mem_cons.1 there with same | there
      · rw [alike k' (List.mem_cons_of_mem _ mem) k List.mem_cons_self same]
        exact List.subset_append_right _ _
      · exact List.subset_append_of_subset_left _ (known k' (List.mem_cons_of_mem _ mem) there)

theorem head?_eraseDups {α : Type} [BEq α] (items : List α) : items.eraseDups.head? = items.head? := by
  cases items with
  | nil => rfl
  | cons item rest => rw [List.eraseDups_cons, List.head?_cons, List.head?_cons]

/-- If kinds of one type name answer alike, one may as well ask them all. -/
theorem collect_of_alike {kinds : List Kind}
    (alike : ∀ k ∈ kinds, ∀ k' ∈ kinds, k.typeName = k'.typeName → k.NeedsLike k') :
    collect kinds = match (kinds.flatMap (·.faults)).head? with
      | some e => .error e
      | .none => .ok (plain kinds) := by
  have faults : ((asked [] kinds).flatMap (·.faults)).eraseDups =
      (kinds.flatMap (·.faults)).eraseDups :=
    eraseDups_asked Kind.faults [] (fun _ _ there => absurd there List.not_mem_nil)
      fun k mem k' mem' same => (alike k mem k' mem' same).faults
  have items (need : Need) : ((asked [] kinds).flatMap (·.needed need)).eraseDups =
      (kinds.flatMap (·.needed need)).eraseDups :=
    eraseDups_asked (·.needed need) [] (fun _ _ there => absurd there List.not_mem_nil)
      fun k mem k' mem' same => congrFun (alike k mem k' mem' same).needed need
  have same : plain (asked [] kinds) = plain kinds := by
    unfold plain
    rw [items, items, items, items]
  rw [collect_eq, ← head?_eraseDups, faults, head?_eraseDups, same]

/-- More kinds only add to the ends. -/
theorem plain_isPrefix (kinds more : List Kind) (need : Need) :
    (plain kinds).items need <+: (plain (kinds ++ more)).items need := by
  rw [items_plain, items_plain, List.flatMap_append, List.eraseDups_append]
  exact List.prefix_append _ _

/-- The same kinds once more add nothing. -/
theorem plain_append_self (kinds : List Kind) : plain (kinds ++ kinds) = plain kinds := by
  have items (need : Need) : ((kinds ++ kinds).flatMap (·.needed need)).eraseDups =
      (kinds.flatMap (·.needed need)).eraseDups := by
    rw [List.flatMap_append, eraseDups_append_of_subset (List.Subset.refl _)]
  unfold plain
  rw [items, items, items, items]

/-- Let kinds of one type name answer alike. If a hook fails, the first failure is the error, by the
order of the nodes and for each node by that of the needs. Otherwise each list holds all that the
nodes need, in their order and with every item at its first place only. Then no list has
repetitions, nothing that a node needs is missing, asking the same nodes again changes nothing, and
further nodes, which need not answer like these, only add to the ends. -/
theorem collect_plain {nodes : List Node} (alike : ∀ m ∈ nodes, ∀ n ∈ nodes,
    m.kind.typeName = n.kind.typeName → m.kind.NeedsLike n.kind) :
    (∀ e, (nodes.flatMap (·.kind.faults)).head? = some e →
        collect (nodes.map (·.kind)) = .error e) ∧
      ((∀ n ∈ nodes, n.kind.faults = []) → ∃ r, collect (nodes.map (·.kind)) = .ok r ∧
        (∀ need, r.items need = (nodes.flatMap (·.kind.needed need)).eraseDups ∧
          (r.items need).Nodup ∧
          ∀ n ∈ nodes, ∀ items, n.kind.ask need = .ok items → items ⊆ r.items need) ∧
        collect ((nodes ++ nodes).map (·.kind)) = .ok r ∧
        ∀ more : List Node, (∀ n ∈ more, n.kind.faults = []) →
          ∃ s, collect ((nodes ++ more).map (·.kind)) = .ok s ∧
            ∀ need, r.items need <+: s.items need) := by
  have alike' : ∀ k ∈ nodes.map (·.kind), ∀ k' ∈ nodes.map (·.kind),
      k.typeName = k'.typeName → k.NeedsLike k' := by
    intro k mem k' mem'
    obtain ⟨m, there, rfl⟩ := List.mem_map.1 mem
    obtain ⟨n, there', rfl⟩ := List.mem_map.1 mem'
    exact alike m there n there'
  have faults : (nodes.map (·.kind)).flatMap (·.faults) = nodes.flatMap (·.kind.faults) :=
    List.flatMap_map ..
  have collected := collect_of_alike alike'
  rw [faults] at collected
  refine ⟨fun e first => by rw [collected, first], fun sound => ?_⟩
  rw [List.flatMap_eq_nil_iff.2 sound] at collected
  refine ⟨_, collected, fun need => ?_, ?_, ?_⟩
  · have items := items_plain (nodes.map (·.kind)) need
    rw [List.flatMap_map] at items
    rw [items]
    refine ⟨rfl, nodup_eraseDups _, fun n there asked answer item mem => ?_⟩
    rw [List.mem_eraseDups, List.mem_flatMap]
    refine ⟨n, there, ?_⟩
    rw [Kind.needed, answer]
    exact mem
  · have twice : ∀ k ∈ nodes.map (·.kind) ++ nodes.map (·.kind),
        ∀ k' ∈ nodes.map (·.kind) ++ nodes.map (·.kind),
        k.typeName = k'.typeName → k.NeedsLike k' :=
      fun k mem k' mem' => alike' k (by simpa using mem) k' (by simpa using mem')
    rw [List.map_append, collect_of_alike twice, List.flatMap_append, faults,
      List.flatMap_eq_nil_iff.2 sound, plain_append_self]
    rfl
  · intro more sound'
    have sound₁ : ∀ k ∈ nodes.map (·.kind), k.faults = [] := List.forall_mem_map.2 sound
    have sound₂ : ∀ k ∈ more.map (·.kind), k.faults = [] := List.forall_mem_map.2 sound'
    have same := Except.ok.inj (collected.symm.trans (collect_of_sound sound₁))
    obtain ⟨seen, split⟩ := asked_append [] (nodes.map (·.kind)) (more.map (·.kind))
    rw [List.map_append, collect_of_sound (List.forall_mem_append.2 ⟨sound₁, sound₂⟩), split, same]
    exact ⟨_, rfl, plain_isPrefix _ _⟩

/-- Two kinds share a type name, and a header with a third; their lists have repetitions of their own. -/
def overlapping : List Node :=
  [⟨0, { Kind.bare 0 with headers := .ok ["a.h", "b.h", "a.h"] }, .none, .empty, .none⟩,
    ⟨1, .scalar .int64 1, .none, .empty, .none⟩,
    ⟨2, { Kind.bare 2 with headers := .ok ["a.h", "b.h", "a.h"] }, .none, .empty, .none⟩,
    ⟨3, { Kind.bare 3 with typeName := "c", headers := .ok ["b.h", "c.h", "math.h"] }, .none, .empty, .none⟩]

theorem overlapping_collect_plain :
    ∃ r, collect (overlapping.map (·.kind)) = .ok r ∧
      r.headers = ["a.h", "b.h", "stdint.h", "stdbool.h", "math.h", "c.h"] ∧ r.headers.Nodup ∧
      collect ((overlapping ++ overlapping).map (·.kind)) = .ok r := by
  have alike : ∀ m ∈ overlapping, ∀ n ∈ overlapping, m.kind.typeName = n.kind.typeName →
      m.kind.NeedsLike n.kind := by
    intro m mem n mem' same need
    simp only [overlapping, List.mem_cons, List.not_mem_nil, or_false] at mem mem'
    rcases mem with rfl | rfl | rfl | rfl <;> rcases mem' with rfl | rfl | rfl | rfl <;>
      first
      | exact absurd same (by decide)
      | cases need <;> rfl
  obtain ⟨r, collected, lists, again, -⟩ := (collect_plain alike).2 (by decide)
  obtain ⟨headers, different, -⟩ := lists .headers
  exact ⟨r, collected, headers.trans (by decide), different, again⟩

end Requirements
end HostBridge
