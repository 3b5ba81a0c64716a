import HostBridge.Proofs.Region.Decision
import Mathlib.Algebra.Order.BigOperators.Group.List
import Mathlib.Algebra.Order.Group.Nat
import Mathlib.Data.List.Duplicate
import Mathlib.Data.List.Perm.Basic

/-!
# The labels of a region

A region has labels of its own, and hooks and the body may define more. Whatever the prefix, its own
are different from each other and from those of a region with another prefix, so that only the body
can be at fault where hooks define none (`Plan.build_unlabelled`).

Where hooks do define labels, it is not enough that all of them are different. A value that is only
released is released by the same code on the normal path and on the failure path, so the labels of
that code are defined twice (`Plan.build_labelled`). There is no other reason for a clash
(`Plan.labels_codeAround`).
-/

namespace HostBridge

/-! ## Labels defined more than once -/

namespace Block

theorem labels_comment (text : String) (b : Block) : labels (.comment text :: b) = labels b :=
  rfl

theorem labels_label (l : Label) (b : Block) : labels (.label l :: b) = l :: labels b :=
  rfl

theorem duplicate_of_firstRepeated? {seen labels : List Label} {l : Label}
    (found : firstRepeated? seen labels = some l) :
    l ∈ labels ∧ (l ∈ seen ∨ List.Duplicate l labels) := by
  induction labels generalizing seen with
  | nil => cases found
  | cons k rest ih =>
    rw [firstRepeated?] at found
    split at found
    · next before =>
      cases found
      exact ⟨List.mem_cons_self, .inl before⟩
    · obtain ⟨mem, origin⟩ := ih found
      refine ⟨List.mem_cons_of_mem _ mem, ?_⟩
      rcases origin with before | twice
      · rcases List.mem_cons.1 before with rfl | before
        · exact .inr mem.duplicate_cons_self
        · exact .inl before
      · exact .inr (twice.duplicate_cons k)

/-- A label that clashes is defined at least twice. -/
theorem two_le_count_of_clash? {b : Block} {l : Label} (clash : b.clash? = some l) :
    2 ≤ b.labels.count l := by
  rcases (duplicate_of_firstRepeated? clash).2 with before | twice
  · cases before
  · exact List.duplicate_iff_two_le_count.1 twice

end Block

/-! ## Where labels come from -/

/-- The endings of the labels of a region with that many bindings. -/
def Ending.upTo (count : Nat) : List Ending :=
  (List.range count).map .fail ++ [.failed, .done]

theorem Ending.nodup_upTo (count : Nat) : (upTo count).Nodup := by
  have different : Function.Injective Ending.fail := fun _ _ => Ending.fail.inj
  rw [upTo, List.nodup_append']
  refine ⟨List.nodup_range.map different, by simp, ?_⟩
  simp [List.disjoint_left]

/-- The labels that the code of a hook defines. -/
def Inquiry.labels (q : Inquiry) : List Label :=
  match q.answer with
  | .ok code => code.labels
  | .error _ => []

/-- The labels that are defined a second time where a value is only released. -/
def Entry.repeatedLabels (e : Entry) : List Label :=
  match e.terminal with
  | .sync => []
  | .cleanup => Inquiry.labels ⟨e.node, .cleanup, e.node.kind.cleanup e.binding⟩

/-- They are among those of the hooks. -/
theorem Entry.count_repeatedLabels_le (e : Entry) (fail below l : Label) :
    e.repeatedLabels.count l ≤ ((e.inquiries fail below).flatMap Inquiry.labels).count l := by
  unfold Entry.repeatedLabels Entry.inquiries
  cases e.terminal with
  | sync => simp
  | cleanup =>
    simp only [List.append_nil, List.flatMap_cons, List.flatMap_nil, List.count_append]
    omega

/-- Hooks without labels leave an entry without. -/
theorem Entry.labels_eq_nil {e : Entry} (unlabelled : e.node.kind.Unlabelled) (fail below : Label) :
    ∀ q ∈ e.inquiries fail below, q.labels = [] := by
  have silent (capability : Capability) (answer : Except ValueError Block)
      (none : ∀ code, answer = .ok code → code.labels = []) :
      Inquiry.labels ⟨e.node, capability, answer⟩ = [] := by
    unfold Inquiry.labels
    cases answer with
    | ok code => exact none code rfl
    | error reason => rfl
  have declare := silent .declare _ (unlabelled.declare e.binding)
  have extract := silent .extract _ (unlabelled.extract e.binding fail)
  have cleanup := silent .cleanup _ (unlabelled.cleanup e.binding)
  have sync := silent .sync _ (unlabelled.sync e.binding below)
  unfold Entry.inquiries
  cases e.terminal <;> simp [declare, extract, cleanup, sync]

namespace Plan

/-- The labels of all the hooks' code. -/
def hookLabels (p : Plan) (label : Ending → Label) : List Label :=
  (p.inquiries label).flatMap Inquiry.labels

def repeatedLabels (p : Plan) : List Label :=
  p.entries.flatMap Entry.repeatedLabels

/-- The labels of the region's own. -/
def ownLabels (p : Plan) (label : Ending → Label) : List Label :=
  (Ending.upTo p.entries.length).map label

/-- What the body jumps to on failure. -/
def topLabel (p : Plan) (label : Ending → Label) : Label :=
  labelBelow label p.entries.length

/-- All labels that are defined. -/
def definedLabels (p : Plan) (label : Ending → Label) (body : Label → Block) : List Label :=
  p.hookLabels label ++ p.repeatedLabels ++ (body (p.topLabel label)).labels ++ p.ownLabels label

theorem repeatedLabels_eq (p : Plan) :
    p.repeatedLabels = p.entries.zipIdx.flatMap fun (e, _) => e.repeatedLabels := by
  have entries := List.flatMap_map Prod.fst Entry.repeatedLabels p.entries.zipIdx
  rw [List.zipIdx_map_fst] at entries
  exact entries

theorem count_repeatedLabels_le (p : Plan) (label : Ending → Label) (l : Label) :
    p.repeatedLabels.count l ≤ (p.hookLabels label).count l := by
  rw [repeatedLabels_eq, hookLabels, inquiries, List.flatMap_assoc, List.count_flatMap,
    List.count_flatMap]
  apply List.sum_le_sum
  rintro ⟨e, index⟩ -
  exact e.count_repeatedLabels_le _ _ l

/-- Labels of two regions are different unless stem and ending are the same. -/
theorem LabelsOf.eq_of_label_eq {stem stem' : String} {label label' : Ending → Label}
    (labels : LabelsOf stem label) (labels' : LabelsOf stem' label') {e f : Ending}
    (same : label e = label' f) : stem = stem' ∧ e = f := by
  apply Ending.eq_of_text
  rw [← labels, ← labels', same]

theorem LabelsOf.nodup_ownLabels {p : Plan} {label : Ending → Label}
    (labels : LabelsOf p.stem label) : (p.ownLabels label).Nodup :=
  (Ending.nodup_upTo _).map fun _ _ same => (labels.eq_of_label_eq labels same).2

/-! ## The labels of the code -/

def Rung.labels (r : Rung) : List Label :=
  r.fragment.declare.labels ++ r.fragment.extract.labels ++ r.fragment.cleanup.labels ++
    r.fragment.finish.labels

/-- The labels of a rung are those of its hooks, and those of its cleanup once more if that runs on
both paths. -/
theorem Rung.labels_eq {e : Entry} {r : Rung} {below : Label}
    (emitted : r.fragment.Emitted e.node.kind e r.fail below) :
    r.labels = (e.inquiries r.fail below).flatMap Inquiry.labels ++ e.repeatedLabels := by
  unfold Rung.labels Entry.inquiries Entry.repeatedLabels
  cases terminal : e.terminal with
  | cleanup =>
    rw [emitted.finish_cleanup terminal]
    simp [Inquiry.labels, emitted.declare, emitted.extract, emitted.cleanup]
  | sync =>
    have sync := emitted.finish_sync terminal
    simp [Inquiry.labels, emitted.declare, emitted.extract, emitted.cleanup, sync]

/-- Each part of a rung stands somewhere in the code, and a label beneath it. -/
theorem count_layout (failed done l : Label) (rungs : List Rung) (body : Block) :
    (layout failed done rungs body).labels.count l =
      (rungs.flatMap Rung.labels).count l + body.labels.count l + (rungs.map (·.fail)).count l +
        [failed, done].count l := by
  have parts : (declarations rungs).labels.count l + (extraction rungs).labels.count l +
      (publication rungs).labels.count l + (ladder rungs).labels.count l =
      (rungs.flatMap Rung.labels).count l + (rungs.map (·.fail)).count l := by
    induction rungs using List.reverseRecOn with
    | nil => rfl
    | append_singleton rungs r ih =>
      have declared : declarations (rungs ++ [r]) = declarations rungs ++ r.fragment.declare := by
        simp [declarations]
      have extracted : extraction [r] = .comment ("extract " ++ r.name) :: r.fragment.extract := by
        simp [extraction]
      rw [declared, extraction_append, extracted, publication_snoc, ladder_snoc]
      simp only [Block.labels_append, Block.labels_comment, Block.labels_label, List.count_append,
        List.count_cons, List.count_nil, List.flatMap_append, List.map_append,
        List.flatMap_singleton, List.map_singleton, Rung.labels]
      omega
  have goto (b : Block) : Block.labels (.goto done :: b) = b.labels := rfl
  have exits : (exits failed done).labels = [failed, done] := rfl
  rw [layout_eq]
  simp only [Block.labels_append, Block.labels_comment, goto, exits, List.count_append]
  omega

theorem rungs_of_rungsFrom {stem : String} {label : Ending → Label} (labels : LabelsOf stem label)
    {index : Nat} {entries : List Entry} {rungs : List Rung}
    (ok : rungsFrom stem index (labelBelow label index) entries = .ok rungs) :
    rungs.flatMap Rung.labels = ((entries.zipIdx index).flatMap fun (e, index) =>
        (e.inquiries (label (.fail index)) (labelBelow label index)).flatMap Inquiry.labels ++
          e.repeatedLabels) ∧
      rungs.map (·.fail) = (List.range' index entries.length).map fun i => label (.fail i) := by
  induction entries generalizing index rungs with
  | nil =>
    cases ok
    exact ⟨rfl, rfl⟩
  | cons e rest ih =>
    obtain ⟨r, others, rfl, text, emitted, ok⟩ := rungsFrom_cons ok
    have fail : r.fail = label (.fail index) := by
      apply Label.eq_of_text
      rw [text, labels, Ending.text_fail, String.append_assoc]
    rw [fail] at ok
    obtain ⟨code, fails⟩ := ih ok
    rw [List.flatMap_cons, List.map_cons, code, fails, Rung.labels_eq emitted, fail]
    exact ⟨rfl, rfl⟩

section Labels

variable {p : Plan} {label : Ending → Label} {rungs : List Rung}

theorem map_fail_rungs (labels : LabelsOf p.stem label)
    (given : p.rungs (label .failed) = .ok rungs) :
    rungs.map (·.fail) = (List.range p.entries.length).map fun i => label (.fail i) := by
  rw [List.range_eq_range']
  exact (rungs_of_rungsFrom labels given).2

theorem top_eq_topLabel (labels : LabelsOf p.stem label)
    (given : p.rungs (label .failed) = .ok rungs) : top (label .failed) rungs = p.topLabel label := by
  unfold top topLabel
  rw [← List.getLast?_map, map_fail_rungs labels given, List.getLast?_map, List.getLast?_range]
  cases p.entries.length <;> rfl

/-- The labels of the code, though in another order. -/
theorem labels_codeAround (labels : LabelsOf p.stem label)
    (given : p.rungs (label .failed) = .ok rungs) (body : Label → Block) :
    (codeAround label rungs body).labels.Perm (p.definedLabels label body) := by
  have code : rungs.flatMap Rung.labels = p.entries.zipIdx.flatMap fun (e, index) =>
      (e.inquiries (label (.fail index)) (labelBelow label index)).flatMap Inquiry.labels ++
        e.repeatedLabels := (rungs_of_rungsFrom labels given).1
  have hooks : (p.hookLabels label ++ p.repeatedLabels).Perm (rungs.flatMap Rung.labels) := by
    rw [code, repeatedLabels_eq, hookLabels, inquiries, List.flatMap_assoc]
    exact List.flatMap_append_perm _ _ _
  have own : p.ownLabels label = rungs.map (·.fail) ++ [label .failed, label .done] := by
    rw [map_fail_rungs labels given, ownLabels, Ending.upTo, List.map_append, List.map_map]
    rfl
  rw [List.perm_iff_count]
  intro l
  rw [codeAround, count_layout, top_eq_topLabel labels given, definedLabels, own]
  simp only [List.count_append, ← hooks.count_eq]
  omega

/-! ## Clashes -/

theorem obstacle?_ne_clash {q : Inquiry} {l : Label} : q.obstacle? ≠ some (.clash l) := by
  unfold Inquiry.obstacle? Inquiry.obstacle
  cases q.answer with
  | ok code => exact nofun
  | error e =>
    dsimp only
    split <;> exact nofun

theorem answer_of_obstacle? {q : Inquiry} {e : ValueError}
    (obstacle : q.obstacle? = some (.failed e)) : q.answer = .error e := by
  unfold Inquiry.obstacle? Inquiry.obstacle at obstacle
  cases answer : q.answer with
  | ok code =>
    rw [answer] at obstacle
    cases obstacle
  | error reason =>
    rw [answer] at obstacle
    dsimp only at obstacle
    split at obstacle
    · cases obstacle
    · cases obstacle
      rfl

theorem answered_of_silent {qs : List Inquiry} (silent : qs.findSome? Inquiry.obstacle? = none) :
    ∀ q ∈ qs, ∃ code, q.answer = .ok code := by
  intro q mem
  have none_there := List.findSome?_eq_none_iff.1 silent q mem
  unfold Inquiry.obstacle? at none_there
  cases answer : q.answer with
  | ok code => exact ⟨code, rfl⟩
  | error e =>
    rw [answer] at none_there
    cases none_there

/-- What each outcome says of the code, once all hooks have given code. -/
structure Outcome (p : Plan) (label : Ending → Label) (rungs : List Rung) (body : Label → Block) :
    Prop where
  clash : ∀ {l}, p.build body = .error (.clash l) ↔ (codeAround label rungs body).clash? = some l
  failed : ∀ {e}, p.build body = .error (.failed e) → Requirements.collect p.kinds = .error e
  built : ∀ {region}, p.build body = .ok region → region.code = codeAround label rungs body

/-- Where all hooks give code, that code and the requirements decide what becomes of the plan. -/
theorem outcome_of_silence (labels : LabelsOf p.stem label)
    (silent : (p.inquiries label).findSome? Inquiry.obstacle? = none) :
    ∃ rungs, p.rungs (label .failed) = .ok rungs ∧ ∀ body, p.Outcome label rungs body := by
  obtain ⟨rungs, given, -, built⟩ := build_of_silence labels silent
  refine ⟨rungs, given, fun body => ?_⟩
  have built := built body
  cases clash : (codeAround label rungs body).clash? with
  | some k =>
    rw [clash] at built
    constructor
    · intro l
      rw [built, clash, Except.error.injEq, Obstacle.clash.injEq, Option.some.injEq]
    · intro e failed
      cases built.symm.trans failed
    · intro region ok
      cases built.symm.trans ok
  | none =>
    rw [clash] at built
    cases collected : Requirements.collect p.kinds with
    | ok r =>
      rw [collected] at built
      constructor
      · intro l
        rw [built, clash]
        exact iff_of_false nofun nofun
      · intro e failed
        cases built.symm.trans failed
      · intro region ok
        cases built.symm.trans ok
        rfl
    | error reason =>
      rw [collected] at built
      constructor
      · intro l
        rw [built, clash]
        exact iff_of_false nofun nofun
      · intro e failed
        cases built.symm.trans failed
        exact collected
      · intro region ok
        cases built.symm.trans ok

/-- There is a clash if all hooks give code and some label is defined twice. -/
theorem clash_iff (labels : LabelsOf p.stem label) (body : Label → Block) :
    (∃ l, p.build body = .error (.clash l)) ↔
      (∀ q ∈ p.inquiries label, ∃ code, q.answer = .ok code) ∧
        ¬(p.definedLabels label body).Nodup := by
  cases first : (p.inquiries label).findSome? Inquiry.obstacle? with
  | some obstacle =>
    constructor
    · rintro ⟨l, clash⟩
      cases ((build_of_obstacle labels first).2 body).symm.trans clash
      obtain ⟨q, -, obstacle⟩ := List.exists_of_findSome?_eq_some first
      exact absurd obstacle obstacle?_ne_clash
    · rintro ⟨answered, -⟩
      cases (findSome?_obstacle? answered).symm.trans first
  | none =>
    obtain ⟨rungs, given, outcome⟩ := outcome_of_silence labels first
    simp only [(outcome body).clash]
    rw [← Option.isSome_iff_exists, ← Option.ne_none_iff_isSome, Ne, Block.clash?_eq_none_iff,
      (labels_codeAround labels given body).nodup_iff]
    exact (and_iff_right (answered_of_silent first)).symm

theorem two_le_count_of_clash (labels : LabelsOf p.stem label) {body : Label → Block} {l : Label}
    (clash : p.build body = .error (.clash l)) : 2 ≤ (p.definedLabels label body).count l := by
  obtain ⟨answered, -⟩ := (clash_iff labels body).1 ⟨l, clash⟩
  obtain ⟨rungs, given, outcome⟩ := outcome_of_silence labels (findSome?_obstacle? answered)
  rw [← (labels_codeAround labels given body).count_eq]
  exact Block.two_le_count_of_clash? ((outcome body).clash.1 clash)

/-- A region that is built defines each label once: its own ones, those of its hooks and those of
its body. -/
theorem labels_of_build (labels : LabelsOf p.stem label) {body : Label → Block} {region : Region}
    (built : p.build body = .ok region) :
    region.code.labels.Nodup ∧ region.code.labels.Perm (p.definedLabels label body) := by
  obtain ⟨_, -, assembly⟩ := assembly_of_build built
  refine ⟨assembly.labels, ?_⟩
  cases first : (p.inquiries label).findSome? Inquiry.obstacle? with
  | some obstacle => cases ((build_of_obstacle labels first).2 body).symm.trans built
  | none =>
    obtain ⟨rungs, given, outcome⟩ := outcome_of_silence labels first
    rw [(outcome body).built built]
    exact labels_codeAround labels given body

/-- The errors of a plan are those of hooks: the region's own labels are all accepted. -/
theorem exists_of_failed (labels : LabelsOf p.stem label) {body : Label → Block} {e : ValueError}
    (refused : p.build body = .error (.failed e)) :
    (∃ q ∈ p.inquiries label, q.answer = .error e) ∨
      ∃ k ∈ Requirements.asked [] p.kinds, e ∈ k.faults := by
  cases first : (p.inquiries label).findSome? Inquiry.obstacle? with
  | some obstacle =>
    cases ((build_of_obstacle labels first).2 body).symm.trans refused
    obtain ⟨q, mem, obstacle⟩ := List.exists_of_findSome?_eq_some first
    exact .inl ⟨q, mem, answer_of_obstacle? obstacle⟩
  | none =>
    obtain ⟨rungs, -, outcome⟩ := outcome_of_silence labels first
    have collected := (outcome body).failed refused
    rw [Requirements.collect_eq] at collected
    cases fault : ((Requirements.asked [] p.kinds).flatMap (·.faults)).head? with
    | none =>
      rw [fault] at collected
      cases collected
    | some reason =>
      rw [fault] at collected
      cases collected
      exact .inr (List.mem_flatMap.1 (List.mem_of_head? fault))

/-! ## Hooks without labels -/

theorem labels_eq_nil_of_unlabelled (unlabelled : ∀ e ∈ p.entries, e.node.kind.Unlabelled) :
    ∀ q ∈ p.inquiries label, q.labels = [] := by
  intro q mem
  obtain ⟨⟨e, index⟩, there, mem⟩ := List.mem_flatMap.1 mem
  exact Entry.labels_eq_nil (unlabelled e (List.fst_mem_of_mem_zipIdx there)) _ _ q mem

/-- Let labels be able to begin with the stem, and let no hook define any. Then the region's own
labels are all different and none of them is ever refused: an error is that of a hook. There is a
clash if and only if all hooks give code and the body defines a label twice or one of the region's
own. Regions of another stem have no such label in common with it, however many bindings they have. -/
theorem build_unlabelled {fresh : Plan} {abi : Abi} (started : Plan.start p.stem abi = .ok fresh)
    (unlabelled : ∀ e ∈ p.entries, e.node.kind.Unlabelled) :
    ∃ label, LabelsOf p.stem label ∧ (p.ownLabels label).Nodup ∧
      (∀ body e, p.build body = .error (.failed e) →
        (∃ q ∈ p.inquiries label, q.answer = .error e) ∨
          ∃ k ∈ Requirements.asked [] p.kinds, e ∈ k.faults) ∧
      (∀ body, (∃ l, p.build body = .error (.clash l)) ↔
        (∀ q ∈ p.inquiries label, ∃ code, q.answer = .ok code) ∧
          (¬(body (p.topLabel label)).labels.Nodup ∨
            ∃ l ∈ p.ownLabels label, l ∈ (body (p.topLabel label)).labels)) ∧
      ∀ (q other : Plan) (abi' : Abi), Plan.start q.stem abi' = .ok other → q.stem ≠ p.stem →
        ∃ label', LabelsOf q.stem label' ∧ (p.ownLabels label).Disjoint (q.ownLabels label') := by
  obtain ⟨label, labels⟩ := labels_of_start started
  have own := labels.nodup_ownLabels
  refine ⟨label, labels, own, fun body e => exists_of_failed labels, fun body => ?_, ?_⟩
  · have hooks : p.hookLabels label = [] :=
      List.flatMap_eq_nil_iff.2 (labels_eq_nil_of_unlabelled unlabelled)
    have repeated : p.repeatedLabels = [] := by
      have bound := p.count_repeatedLabels_le label
      rw [hooks] at bound
      exact List.eq_nil_iff_forall_not_mem.2 fun l => List.count_eq_zero.1 (Nat.le_zero.1 (bound l))
    rw [clash_iff labels, definedLabels, hooks, repeated, List.append_nil, List.nil_append,
      List.nodup_append', List.disjoint_right]
    simp only [own, true_and, not_and_or, not_forall, not_not, exists_prop]
  · intro q other abi' started' different
    obtain ⟨label', labels'⟩ := labels_of_start started'
    refine ⟨label', labels', List.disjoint_left.2 fun l mem mem' => different ?_⟩
    obtain ⟨e, -, rfl⟩ := List.mem_map.1 mem
    obtain ⟨f, -, same⟩ := List.mem_map.1 mem'
    exact (labels'.eq_of_label_eq labels same).1

end Labels

/-- Two values have labels numbered 0 and 1. A body can use the next number, and a region the first
label of another one as its stem. -/
theorem handleAndCounter_build_unlabelled :
    ∃ label label', LabelsOf "r" label ∧ LabelsOf "r_fail_1" label' ∧
      (∃ l, handleAndCounter.build (fun _ => [.label ⟨"r_fail_1", rfl⟩]) = .error (.clash l)) ∧
      (¬∃ l, handleAndCounter.build (fun _ => [.label ⟨"r_fail_2", rfl⟩]) = .error (.clash l)) ∧
      (handleAndCounter.ownLabels label).Disjoint
        ({ handleAndCounter with stem := "r_fail_1" }.ownLabels label') := by
  have started : Plan.start "r" .standard = .ok ⟨"r", "host_", []⟩ := rfl
  have started' : Plan.start "r_fail_1" .standard = .ok ⟨"r_fail_1", "host_", []⟩ := rfl
  have unlabelled (e : Entry) (mem : e ∈ handleAndCounter.entries) : e.node.kind.Unlabelled :=
    (handleAndCounter_builtIn e mem).unlabelled
  obtain ⟨label, labels, -, -, clash, apart⟩ :=
    build_unlabelled (p := handleAndCounter) started unlabelled
  obtain ⟨label', labels', disjoint⟩ := apart { handleAndCounter with stem := "r_fail_1" } _ _ started'
    (by decide)
  refine ⟨label, label', labels, labels', (clash _).2 ⟨answered_of_silent rfl, .inr ?_⟩, ?_, disjoint⟩
  · refine ⟨label (.fail 1), List.mem_map_of_mem (by simp [Ending.upTo, handleAndCounter]), ?_⟩
    have same : label (.fail 1) = ⟨"r_fail_1", rfl⟩ := Label.eq_of_text (labels _)
    rw [same]
    exact List.mem_singleton_self _
  · rw [clash]
    rintro ⟨-, twice | ⟨l, own, there⟩⟩
    · exact twice (List.nodup_singleton _)
    · obtain ⟨e, mem, rfl⟩ := List.mem_map.1 own
      have next : label (.fail 2) = ⟨"r_fail_2", rfl⟩ := Label.eq_of_text (labels _)
      have same := (List.mem_singleton.1 there).trans next.symm
      obtain rfl := (labels.eq_of_label_eq labels same).2
      simp [Ending.upTo, handleAndCounter] at mem

/-! ## Hooks with labels -/

section Labels

variable {p : Plan} {label : Ending → Label}

/-- No label is defined twice by hooks and body, and none of theirs is one of the region's own. -/
structure Separate (p : Plan) (label : Ending → Label) (body : Label → Block) : Prop where
  hooks_nodup : (p.hookLabels label).Nodup
  body_nodup : (body (p.topLabel label)).labels.Nodup
  apart : ∀ l ∈ p.hookLabels label, l ∉ (body (p.topLabel label)).labels
  own : ∀ l ∈ p.ownLabels label, l ∉ p.hookLabels label ∧ l ∉ (body (p.topLabel label)).labels

/-- What is only released defines its labels twice, and all other labels are defined once. -/
theorem Separate.count_eq {body : Label → Block} (separate : p.Separate label body)
    (labels : LabelsOf p.stem label) (l : Label) :
    (p.definedLabels label body).count l =
      if l ∈ p.repeatedLabels then 2
      else if l ∈ p.hookLabels label ∨ l ∈ (body (p.topLabel label)).labels ∨
        l ∈ p.ownLabels label then 1
      else 0 := by
  have bound := p.count_repeatedLabels_le label l
  have hooks := separate.hooks_nodup.count (a := l)
  have apart := separate.apart l
  have own := separate.own l
  rw [definedLabels, List.count_append, List.count_append, List.count_append,
    separate.body_nodup.count, labels.nodup_ownLabels.count]
  by_cases repeated : l ∈ p.repeatedLabels
  · have positive := List.count_pos_iff.2 repeated
    have mem : l ∈ p.hookLabels label := List.count_pos_iff.1 (Nat.lt_of_lt_of_le positive bound)
    have outside : l ∉ p.ownLabels label := fun mem' => (own mem').1 mem
    rw [if_pos mem] at hooks
    rw [if_pos repeated, hooks, if_neg (apart mem), if_neg outside]
    omega
  · rw [if_neg repeated, hooks, List.count_eq_zero.2 repeated]
    by_cases mem : l ∈ p.hookLabels label
    · have outside : l ∉ p.ownLabels label := fun mem' => (own mem').1 mem
      simp [mem, apart mem, outside]
    · by_cases mem' : l ∈ p.ownLabels label
      · simp [mem, mem', (own mem').2]
      · simp [mem, mem']

/-- Only repeated labels are not defined once. -/
theorem Separate.nodup_iff {body : Label → Block} (separate : p.Separate label body)
    (labels : LabelsOf p.stem label) :
    (p.definedLabels label body).Nodup ↔ p.repeatedLabels = [] := by
  rw [List.nodup_iff_count_le_one, List.eq_nil_iff_forall_not_mem]
  refine forall_congr' fun l => ?_
  rw [separate.count_eq labels]
  constructor
  · intro once repeated
    rw [if_pos repeated] at once
    omega
  · intro single
    rw [if_neg single]
    split <;> omega

/-- Labels are repeated where a cleanup with labels runs on both paths. -/
theorem repeatedLabels_ne_nil_iff : p.repeatedLabels ≠ [] ↔ ∃ e ∈ p.entries,
    e.terminal = .cleanup ∧ ∃ code, e.node.kind.cleanup e.binding = .ok code ∧ code.labels ≠ [] := by
  rw [repeatedLabels, Ne, List.flatMap_eq_nil_iff]
  simp only [not_forall, exists_prop]
  refine exists_congr fun e => and_congr_right fun _ => ?_
  unfold Entry.repeatedLabels Inquiry.labels
  cases e.terminal with
  | sync => simp
  | cleanup => cases e.node.kind.cleanup e.binding <;> simp

/-- Let labels be able to begin with the stem, and let the labels that hooks and body define be
different from each other and from the region's own. In the region's code those of a cleanup stand
twice if its value is only to be released, and all others once. So there is a clash if and only if
all hooks give code and such a cleanup defines a label, and it is such a label. In a region that is
built every label is defined once. -/
theorem build_labelled {fresh : Plan} {abi : Abi} (started : Plan.start p.stem abi = .ok fresh) :
    ∃ label, LabelsOf p.stem label ∧ ∀ body, p.Separate label body →
      (∀ rungs, p.rungs (label .failed) = .ok rungs → ∀ l,
        (codeAround label rungs body).labels.count l =
          if l ∈ p.repeatedLabels then 2
          else if l ∈ p.hookLabels label ∨ l ∈ (body (p.topLabel label)).labels ∨
            l ∈ p.ownLabels label then 1
          else 0) ∧
      ((∃ l, p.build body = .error (.clash l)) ↔
        (∀ q ∈ p.inquiries label, ∃ code, q.answer = .ok code) ∧
          ∃ e ∈ p.entries, e.terminal = .cleanup ∧
            ∃ code, e.node.kind.cleanup e.binding = .ok code ∧ code.labels ≠ []) ∧
      (∀ l, p.build body = .error (.clash l) → l ∈ p.repeatedLabels) ∧
      ∀ region, p.build body = .ok region → region.code.labels.Nodup ∧ ∀ l,
        l ∈ region.code.labels ↔ l ∈ p.hookLabels label ∨
          l ∈ (body (p.topLabel label)).labels ∨ l ∈ p.ownLabels label := by
  obtain ⟨label, labels⟩ := labels_of_start started
  refine ⟨label, labels, fun body separate => ⟨?_, ?_, ?_, ?_⟩⟩
  · intro rungs given l
    rw [(labels_codeAround labels given body).count_eq, separate.count_eq labels]
  · rw [clash_iff labels, separate.nodup_iff labels, ← Ne, repeatedLabels_ne_nil_iff]
  · intro l clash
    have twice := two_le_count_of_clash labels clash
    rw [separate.count_eq labels] at twice
    by_contra single
    rw [if_neg single] at twice
    split at twice <;> omega
  · intro region built
    obtain ⟨nodup, defined⟩ := labels_of_build labels built
    refine ⟨nodup, fun l => ?_⟩
    have single := (separate.nodup_iff labels).1 (defined.nodup_iff.1 nodup)
    rw [defined.mem_iff, definedLabels, single]
    simp

end Labels

/-- A value whose release is skipped where there is nothing to release. -/
def branching : Node where
  id := 0
  kind := { Kind.bare 0 with
    declare := fun b => .ok [.declare b.text .handle]
    extract := fun b _ => .ok [.assign b.native b.host, .incRef b.native]
    cleanup := fun b =>
      .ok [.gotoIfNull b.native ⟨"h_null", rfl⟩, .decRef b.native, .label ⟨"h_null", rfl⟩]
    sync := fun b _ => .ok [.decRef b.host, .assign b.host b.native] }
  role := none
  slot := .empty
  explicitName := none

def withBranching (terminal : Terminal) : Plan :=
  ⟨"r", "host_", [⟨branching, ⟨"h", rfl⟩, terminal⟩]⟩

/-- The one label that the value's code brings along begins with another letter than those of the
region. -/
theorem withBranching_separate (terminal : Terminal) {label : Ending → Label}
    (labels : LabelsOf "r" label) : (withBranching terminal).Separate label fun _ => [] := by
  have hooks : (withBranching terminal).hookLabels label = [⟨"h_null", rfl⟩] := by
    cases terminal <;> rfl
  constructor
  · rw [hooks]
    exact List.nodup_singleton _
  · exact List.nodup_nil
  · intro l _
    exact List.not_mem_nil
  · intro l own
    refine ⟨?_, List.not_mem_nil⟩
    obtain ⟨e, -, rfl⟩ := List.mem_map.1 own
    rw [hooks, List.mem_singleton]
    intro same
    have text := congrArg Label.text same
    rw [labels] at text
    have initial := congrArg (fun s => s.toList.head?) text
    simp at initial

/-- If the value is to be published, its release stands in the code once, and otherwise twice. -/
theorem withBranching_build_labelled :
    Plan.start "r" .standard = .ok ⟨"r", "host_", []⟩ ∧
      (∃ l, (withBranching .cleanup).build (fun _ => []) = .error (.clash l)) ∧
      ∃ region, (withBranching .sync).build (fun _ => []) = .ok region ∧
        region.code.labels.Nodup ∧ ⟨"h_null", rfl⟩ ∈ region.code.labels := by
  have started : Plan.start "r" .standard = .ok ⟨"r", "host_", []⟩ := rfl
  obtain ⟨label, labels, decided⟩ := build_labelled (p := withBranching .cleanup) started
  obtain ⟨label', labels', decided'⟩ := build_labelled (p := withBranching .sync) started
  obtain ⟨-, clash, -⟩ := decided _ (withBranching_separate .cleanup labels)
  obtain ⟨-, -, -, once⟩ := decided' _ (withBranching_separate .sync labels')
  refine ⟨started, clash.2 ⟨?_, _, List.mem_singleton_self _, rfl, _, rfl, List.cons_ne_nil _ _⟩,
    _, rfl, (once _ rfl).1, ?_⟩
  · exact answered_of_silent rfl
  · exact ((once _ rfl).2 _).2 (.inl (List.mem_singleton_self _))

/-- So labels that are different from each other do not make a region whose labels are. -/
theorem withBranching_clash :
    ¬ ∀ (p : Plan) (label : Ending → Label) (body : Label → Block),
      (∃ abi fresh, Plan.start p.stem abi = .ok fresh) → LabelsOf p.stem label →
        p.Separate label body → ∀ l, p.build body ≠ .error (.clash l) := by
  intro claim
  have started : Plan.start "r" .standard = .ok ⟨"r", "host_", []⟩ := rfl
  obtain ⟨label, labels⟩ := labels_of_start started
  exact claim (withBranching .cleanup) label (fun _ => []) ⟨_, _, started⟩ labels
    (withBranching_separate .cleanup labels) ⟨"h_null", rfl⟩ rfl

end Plan

end HostBridge
