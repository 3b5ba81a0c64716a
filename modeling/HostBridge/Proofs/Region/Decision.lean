import HostBridge.Proofs.Region.Joining
import HostBridge.Proofs.Region.Needs

/-!
# What becomes of a plan

To build a region its plan asks the hooks of the bound values, entry by entry, for code
(`Plan.inquiries`). The first hook without code decides: where it is missing the group has to be
interpreted, where it fails that is the error, and the body is not looked at. If all hooks give
code and no label is defined twice, only what the values need can still be refused
(`Plan.build_decided`).
-/

namespace HostBridge

/-! ## Labels behind a stem -/

theorem isIdentifier_iff {s : String} : isIdentifier s = true ↔
    ∃ first rest, s.toList = first :: rest ∧ isIdentifierStart first = true ∧
      ∀ c ∈ rest, isIdentifierRest c = true := by
  unfold isIdentifier
  cases s.toList with
  | nil => simp
  | cons first rest => simp

/-- What stands behind the stem is an identifier itself. -/
theorem Ending.chars (e : Ending) :
    ∃ rest, e.text.toList = '_' :: rest ∧ ∀ c ∈ rest, isIdentifierRest c = true := by
  cases e with
  | failed => exact ⟨"failed".toList, rfl, List.all_eq_true.1 (by decide)⟩
  | done => exact ⟨"done".toList, rfl, List.all_eq_true.1 (by decide)⟩
  | fail index =>
    refine ⟨"fail_".toList ++ Nat.toDigits 10 index, ?_, ?_⟩
    · rw [Ending.text_fail, String.toList_append, toList_toString]
      rfl
    · rw [List.forall_mem_append]
      refine ⟨List.all_eq_true.1 (by decide), fun c mem => ?_⟩
      exact isIdentifierRest_of_isDigit (isDigit_toDigits c mem)

/-- If one label can begin with a stem, all labels of a region can. -/
theorem Ending.isIdentifier_text {stem : String} {e : Ending}
    (valid : isIdentifier (stem ++ e.text) = true) (f : Ending) :
    isIdentifier (stem ++ f.text) = true := by
  obtain ⟨rest, chars, names⟩ := e.chars
  obtain ⟨rest', chars', names'⟩ := f.chars
  rw [isIdentifier_iff] at valid ⊢
  obtain ⟨first, others, whole, start, later⟩ := valid
  rw [String.toList_append, chars] at whole
  rw [String.toList_append, chars']
  cases letters : stem.toList with
  | nil => exact ⟨'_', rest', rfl, rfl, names'⟩
  | cons c letters' =>
    rw [letters, List.cons_append] at whole
    obtain ⟨rfl, rfl⟩ := List.cons.inj whole
    refine ⟨c, letters' ++ '_' :: rest', rfl, start, ?_⟩
    rw [List.forall_mem_append] at later ⊢
    exact ⟨later.1, List.forall_mem_cons.2 ⟨rfl, names'⟩⟩

/-- The labels of a region by their endings. -/
def Plan.LabelsOf (stem : String) (label : Ending → Label) : Prop :=
  ∀ e, (label e).text = stem ++ e.text

/-- A plan that could be started has labels for all endings, since one label behind its stem was
accepted. -/
theorem Plan.labels_of_start {stem : String} {abi : Abi} {p : Plan}
    (started : Plan.start stem abi = .ok p) : ∃ label, LabelsOf stem label := by
  obtain ⟨done, ok, -⟩ := ok_of_bind started
  have valid : isIdentifier (stem ++ Ending.done.text) = true := by
    have text := text_of_labelOf ok
    change done.text = stem ++ Ending.done.text at text
    rw [← text]
    exact done.isIdentifier_text
  exact ⟨fun e => ⟨stem ++ e.text, Ending.isIdentifier_text valid e⟩, fun e => rfl⟩

theorem labelOf_eq {stem ending : String} {l : Label} (text : l.text = stem ++ ("_" ++ ending)) :
    Plan.labelOf stem ending = .ok l := by
  unfold Plan.labelOf Label.ofText
  rw [String.append_assoc]
  obtain ⟨name, identifier⟩ := l
  change name = _ at text
  subst text
  exact dif_pos identifier

/-! ## Inquiries -/

/-- A hook that is asked for code, and its answer. -/
structure Inquiry where
  node : Node
  capability : Capability
  answer : Except ValueError Block

/-- What stands in the way of a region if the answer is an error. -/
def Inquiry.obstacle (q : Inquiry) (e : ValueError) : Obstacle :=
  if e.isUnsupported then .lacking q.node q.capability else .failed e

def Inquiry.obstacle? (q : Inquiry) : Option Obstacle :=
  match q.answer with
  | .ok _ => none
  | .error e => some (q.obstacle e)

/-- The hooks of an entry in the order of asking. The sync hook is asked only where the binding is to
be published, and is given the label of the rung below. -/
def Entry.inquiries (e : Entry) (fail below : Label) : List Inquiry :=
  [⟨e.node, .declare, e.node.kind.declare e.binding⟩,
    ⟨e.node, .extract, e.node.kind.extract e.binding fail⟩,
    ⟨e.node, .cleanup, e.node.kind.cleanup e.binding⟩] ++
  match e.terminal with
  | .cleanup => []
  | .sync => [⟨e.node, .sync, e.node.kind.sync e.binding below⟩]

namespace Plan

/-- The label that a binding in that position is left by when it is given up: that of the binding
before it. -/
def labelBelow (label : Ending → Label) : Nat → Label
  | 0 => label .failed
  | index + 1 => label (.fail index)

/-- All hooks that are asked, in the order of the entries. -/
def inquiries (p : Plan) (label : Ending → Label) : List Inquiry :=
  p.entries.zipIdx.flatMap fun (e, index) =>
    e.inquiries (label (.fail index)) (labelBelow label index)

/-- A fragment is there if none of the hooks is in the way, and otherwise the first one is. -/
theorem emit_cases (e : Entry) (fail below : Label) :
    (∃ obstacle, (e.inquiries fail below).findSome? Inquiry.obstacle? = some obstacle ∧
        Fragment.emit e.node e.binding fail below e.terminal = .error obstacle) ∨
      ((e.inquiries fail below).findSome? Inquiry.obstacle? = none ∧
        ∃ f, Fragment.emit e.node e.binding fail below e.terminal = .ok f) := by
  unfold Fragment.emit Entry.inquiries
  cases e.node.kind.declare e.binding with
  | error reason => exact .inl ⟨_, rfl, rfl⟩
  | ok declare =>
    cases e.node.kind.extract e.binding fail with
    | error reason => exact .inl ⟨_, rfl, rfl⟩
    | ok extract =>
      cases e.node.kind.cleanup e.binding with
      | error reason => exact .inl ⟨_, rfl, rfl⟩
      | ok cleanup =>
        cases e.terminal with
        | cleanup => exact .inr ⟨rfl, _, rfl⟩
        | sync =>
          dsimp only
          cases e.node.kind.sync e.binding below with
          | error reason => exact .inl ⟨_, rfl, rfl⟩
          | ok sync => exact .inr ⟨rfl, _, rfl⟩

/-- The rungs are there if no hook is in the way, and otherwise the first one is. -/
theorem rungsFrom_cases {stem : String} {label : Ending → Label} (labels : LabelsOf stem label)
    (index : Nat) (entries : List Entry) :
    let inquiries := (entries.zipIdx index).flatMap fun (e, index) =>
      e.inquiries (label (.fail index)) (labelBelow label index)
    (∃ obstacle, inquiries.findSome? Inquiry.obstacle? = some obstacle ∧
        rungsFrom stem index (labelBelow label index) entries = .error obstacle) ∨
      (inquiries.findSome? Inquiry.obstacle? = none ∧
        ∃ rungs, rungsFrom stem index (labelBelow label index) entries = .ok rungs) := by
  induction entries generalizing index with
  | nil => exact .inr ⟨rfl, [], rfl⟩
  | cons e rest ih =>
    have joined : "_" ++ ("fail_" ++ toString index) = "_fail_" ++ toString index := by
      rw [← String.append_assoc]
      rfl
    have fail : labelOf stem ("fail_" ++ toString index) = .ok (label (.fail index)) := by
      apply labelOf_eq
      rw [labels, Ending.text_fail, joined]
    have fail' : (labelOf stem ("fail_" ++ toString index)).mapError Obstacle.failed =
        .ok (label (.fail index)) := by
      rw [fail]
      rfl
    dsimp only
    rw [List.zipIdx_cons, List.flatMap_cons, List.findSome?_append, rungsFrom, bind_of_ok fail']
    rcases emit_cases e (label (.fail index)) (labelBelow label index) with
      ⟨obstacle, first, emitted⟩ | ⟨silent, f, emitted⟩
    · rw [first]
      exact .inl ⟨obstacle, rfl, bind_of_error emitted _⟩
    · rw [silent, bind_of_ok emitted]
      rcases ih (index + 1) with ⟨obstacle, first, others⟩ | ⟨silent, rungs, others⟩
      · exact .inl ⟨obstacle, first, bind_of_error others _⟩
      · exact .inr ⟨silent, _, bind_of_ok others _⟩

end Plan

/-! ## A kind that lacks its sync hook -/

theorem toOption_bind {ε α β : Type} (x : Except ε α) (f : α → Except ε β) :
    (x >>= f).toOption = x.toOption.bind fun a => (f a).toOption := by
  cases x <;> rfl

theorem toOption_eq_some {ε α : Type} {x : Except ε α} {a : α} :
    x.toOption = some a ↔ x = .ok a := by
  cases x with
  | error e => exact iff_of_false nofun nofun
  | ok b => exact ⟨fun same => congrArg _ (Option.some.inj same), fun same => by rw [same]; rfl⟩

/-- The kind without its sync hook. -/
def Kind.withoutSync (k : Kind) : Kind :=
  { k with sync := fun _ _ => .error (.unsupported k.typeName .sync) }

/-- The entry with a kind that lacks the sync hook, unless the binding is to be published. -/
def Entry.withoutIdleSync (e : Entry) : Entry :=
  match e.terminal with
  | .sync => e
  | .cleanup => { e with node := { e.node with kind := e.node.kind.withoutSync } }

/-- A binding that is not published does not ask for the sync hook, so the fragment is the same
without. -/
theorem emit_withoutIdleSync (e : Entry) (fail below : Label) :
    (Fragment.emit e.withoutIdleSync.node e.withoutIdleSync.binding fail below
        e.withoutIdleSync.terminal).toOption =
      (Fragment.emit e.node e.binding fail below e.terminal).toOption := by
  obtain ⟨n, b, terminal⟩ := e
  cases terminal with
  | sync => rfl
  | cleanup =>
    unfold Entry.withoutIdleSync Fragment.emit Kind.withoutSync
    dsimp only
    cases n.kind.declare b with
    | error reason => rfl
    | ok declare =>
      cases n.kind.extract b fail with
      | error reason => rfl
      | ok extract => cases n.kind.cleanup b <;> rfl

theorem add_withoutIdleSync (r : Requirements) (e : Entry) :
    r.add e.withoutIdleSync.node.kind = r.add e.node.kind := by
  obtain ⟨n, b, terminal⟩ := e
  cases terminal <;> rfl

theorem typeName_withoutIdleSync (e : Entry) :
    e.withoutIdleSync.node.kind.typeName = e.node.kind.typeName := by
  obtain ⟨n, b, terminal⟩ := e
  cases terminal <;> rfl

theorem addAll_withoutIdleSync (r : Requirements) (seen : List String) (entries : List Entry) :
    r.addAll seen (entries.map (·.withoutIdleSync.node.kind)) =
      r.addAll seen (entries.map (·.node.kind)) := by
  induction entries generalizing r seen with
  | nil => rfl
  | cons e rest ih =>
    simp only [List.map_cons, Requirements.addAll, add_withoutIdleSync, typeName_withoutIdleSync, ih]

namespace Plan

/-- The rungs are the same, or there are none in either case. -/
theorem rungsFrom_withoutIdleSync (stem : String) (index : Nat) (below : Label)
    (entries : List Entry) :
    (rungsFrom stem index below (entries.map Entry.withoutIdleSync)).toOption =
      (rungsFrom stem index below entries).toOption := by
  induction entries generalizing index below with
  | nil => rfl
  | cons e rest ih =>
    simp only [List.map_cons, rungsFrom, toOption_bind, emit_withoutIdleSync, ih]

/-- The plan with kinds that lack the sync hook where it is not asked. -/
def withoutIdleSync (p : Plan) : Plan :=
  { p with entries := p.entries.map Entry.withoutIdleSync }

/-- A plan is built to the same region without sync hooks that are not needed, or not at all in
either case. -/
theorem build_withoutIdleSync (p : Plan) (body : Label → Block) :
    (p.withoutIdleSync.build body).toOption = (p.build body).toOption := by
  unfold build rungs withoutIdleSync Requirements.collect
  have collected := addAll_withoutIdleSync .none [] p.entries
  simp only [toOption_bind, rungsFrom_withoutIdleSync, List.map_map]
  unfold Function.comp
  rw [collected]

/-! ## The decision -/

theorem findSome?_obstacle? {qs : List Inquiry}
    (answered : ∀ q ∈ qs, ∃ code, q.answer = .ok code) : qs.findSome? Inquiry.obstacle? = none := by
  rw [List.findSome?_eq_none_iff]
  intro q mem
  obtain ⟨code, answer⟩ := answered q mem
  rw [Inquiry.obstacle?, answer]

theorem obstacle?_supported {q : Inquiry} {e : ValueError}
    (obstacle : q.obstacle? = some (.failed e)) : e.isUnsupported = false := by
  unfold Inquiry.obstacle? Inquiry.obstacle at obstacle
  cases answer : q.answer with
  | ok code =>
    rw [answer] at obstacle
    cases obstacle
  | error reason =>
    rw [answer] at obstacle
    dsimp only at obstacle
    split at obstacle
    · cases obstacle
    · next other =>
      cases obstacle
      simpa using other

theorem fault?_supported {α : Type} {answer : Except ValueError α} {e : ValueError}
    (fault : fault? answer = some e) : e.isUnsupported = false := by
  unfold fault? supported at fault
  cases answer with
  | ok a => cases fault
  | error reason =>
    dsimp only at fault
    by_cases missing : reason.isUnsupported = true
    · rw [if_pos missing] at fault
      cases fault
    · rw [if_neg missing] at fault
      cases fault
      simpa using missing

/-- A missing hook is no reason to refuse requirements. -/
theorem collect_supported {kinds : List Kind} {e : ValueError}
    (refused : Requirements.collect kinds = .error e) : e.isUnsupported = false := by
  rw [Requirements.collect_eq] at refused
  cases first : ((Requirements.asked [] kinds).flatMap (·.faults)).head? with
  | none =>
    rw [first] at refused
    cases refused
  | some fault =>
    rw [first] at refused
    cases refused
    obtain ⟨k, -, mem⟩ := List.mem_flatMap.1 (List.mem_of_head? first)
    obtain ⟨need, -, fault⟩ := List.mem_filterMap.1 mem
    exact fault?_supported fault

/-- The kinds of the bound nodes. -/
def kinds (p : Plan) : List Kind :=
  p.entries.map (·.node.kind)

/-- The code around a body, which gets the top of the ladder to jump to. -/
def codeAround (label : Ending → Label) (rungs : List Rung) (body : Label → Block) : Block :=
  layout (label .failed) (label .done) rungs (body (top (label .failed) rungs))

variable {p : Plan} {label : Ending → Label}

theorem labelOf_ending (labels : LabelsOf p.stem label) {e : Ending} (ending : String)
    (text : e.text = "_" ++ ending) :
    (labelOf p.stem ending).mapError Obstacle.failed = .ok (label e) := by
  rw [labelOf_eq (l := label e) (by rw [labels, text])]
  rfl

/-- The first hook in the way decides before the body is asked for. -/
theorem build_of_obstacle (labels : LabelsOf p.stem label) {obstacle : Obstacle}
    (first : (p.inquiries label).findSome? Inquiry.obstacle? = some obstacle) :
    p.bodyTarget = .error obstacle ∧ ∀ body, p.build body = .error obstacle := by
  have failed := labelOf_ending labels (e := .failed) "failed" rfl
  have done := labelOf_ending labels (e := .done) "done" rfl
  have refused : p.rungs (label .failed) = .error obstacle := by
    rcases rungsFrom_cases labels 0 p.entries with ⟨obstacle', first', refused⟩ | ⟨silent, -⟩
    · cases first.symm.trans first'
      exact refused
    · cases first.symm.trans silent
  refine ⟨?_, fun body => ?_⟩
  · rw [bodyTarget, bind_of_ok failed, bind_of_error refused]
  · rw [build, bind_of_ok failed, bind_of_ok done, bind_of_error refused]

/-- Where no hook is in the way, only labels and requirements can be. -/
theorem build_of_silence (labels : LabelsOf p.stem label)
    (silent : (p.inquiries label).findSome? Inquiry.obstacle? = none) :
    ∃ rungs, p.rungs (label .failed) = .ok rungs ∧
      p.bodyTarget = .ok (top (label .failed) rungs) ∧
      ∀ body, p.build body = match (codeAround label rungs body).clash? with
        | some l => .error (.clash l)
        | none => (Requirements.collect p.kinds).mapError .failed >>= fun r =>
          .ok ⟨codeAround label rungs body, label .failed, label .done, r⟩ := by
  have failed := labelOf_ending labels (e := .failed) "failed" rfl
  have done := labelOf_ending labels (e := .done) "done" rfl
  rcases rungsFrom_cases labels 0 p.entries with ⟨obstacle, first, -⟩ | ⟨-, rungs, given⟩
  · cases first.symm.trans silent
  · have given : p.rungs (label .failed) = .ok rungs := given
    refine ⟨rungs, given, ?_, fun body => ?_⟩
    · rw [bodyTarget, bind_of_ok failed, bind_of_ok given]
    · rw [build, bind_of_ok failed, bind_of_ok done, bind_of_ok given]
      rfl

/-- A missing hook is reported as lacking, never as an error. -/
theorem build_supported (labels : LabelsOf p.stem label) {body : Label → Block} {e : ValueError}
    (refused : p.build body = .error (.failed e)) : e.isUnsupported = false := by
  cases first : (p.inquiries label).findSome? Inquiry.obstacle? with
  | some obstacle =>
    rw [(build_of_obstacle labels first).2 body] at refused
    cases refused
    obtain ⟨q, -, obstacle⟩ := List.exists_of_findSome?_eq_some first
    exact obstacle?_supported obstacle
  | none =>
    obtain ⟨rungs, -, -, built⟩ := build_of_silence labels first
    rw [built] at refused
    split at refused
    · cases refused
    · cases collected : Requirements.collect p.kinds with
      | ok r =>
        rw [collected] at refused
        cases refused
      | error reason =>
        rw [collected] at refused
        cases refused
        exact collect_supported collected

/-- Let labels be able to begin with the stem. The first hook without code, in the order of the
entries and for each entry in that of the hooks, decides on the plan: if it is missing, it is what the
plan lacks, and otherwise its error is that of the plan. Neither depends on the body, for which there
is no target. If all hooks give code and no label is defined twice, the plan fails with the first
failing hook of those that `collect` asks for what the values need, and otherwise it is built, with
all that is collected. So the plan never fails for a missing hook; and whether a kind has a sync hook
is of no account where the binding is not to be published. -/
theorem build_decided {fresh : Plan} {abi : Abi} (started : Plan.start p.stem abi = .ok fresh) :
    ∃ label, LabelsOf p.stem label ∧
      (∀ before q after e, p.inquiries label = before ++ q :: after →
        (∀ a ∈ before, ∃ code, a.answer = .ok code) → q.answer = .error e →
        p.bodyTarget = .error (q.obstacle e) ∧ ∀ body, p.build body = .error (q.obstacle e)) ∧
      ((∀ q ∈ p.inquiries label, ∃ code, q.answer = .ok code) →
        ∃ rungs, p.rungs (label .failed) = .ok rungs ∧
          p.bodyTarget = .ok (top (label .failed) rungs) ∧
          ∀ body, (codeAround label rungs body).labels.Nodup →
            (∀ e, ((Requirements.asked [] p.kinds).flatMap (·.faults)).head? = some e →
              p.build body = .error (.failed e)) ∧
            ((∀ k ∈ Requirements.asked [] p.kinds, k.faults = []) →
              ∃ r, Requirements.collect p.kinds = .ok r ∧
                p.build body =
                  .ok ⟨codeAround label rungs body, label .failed, label .done, r⟩)) ∧
      (∀ body e, p.build body = .error (.failed e) → e.isUnsupported = false) ∧
      ∀ body region, p.withoutIdleSync.build body = .ok region ↔ p.build body = .ok region := by
  obtain ⟨label, labels⟩ := labels_of_start started
  refine ⟨label, labels, ?_, fun answered => ?_, fun body e => build_supported labels,
    fun body region => ?_⟩
  · intro before q after e asked answered answer
    apply build_of_obstacle labels
    rw [asked, List.findSome?_append, findSome?_obstacle? answered, Option.none_or,
      List.findSome?_cons, Inquiry.obstacle?, answer]
  · obtain ⟨rungs, given, target, built⟩ := build_of_silence labels (findSome?_obstacle? answered)
    refine ⟨rungs, given, target, fun body unique => ?_⟩
    rw [built, (Block.clash?_eq_none_iff _).2 unique, Requirements.collect_eq]
    constructor
    · intro e first
      rw [first]
      rfl
    · intro sound
      rw [List.flatMap_eq_nil_iff.2 sound]
      exact ⟨_, rfl, rfl⟩
  · rw [← toOption_eq_some, build_withoutIdleSync, toOption_eq_some]

/-- A value that can be read and not published. -/
def readOnly : Node where
  id := 0
  kind := { Kind.bare 0 with
    declare := fun _ => .ok []
    extract := fun _ _ => .ok []
    cleanup := fun _ => .ok [] }
  role := none
  slot := .empty
  explicitName := none

/-- A value whose kind fails to say how it is read. -/
def unreadable : Node :=
  { readOnly with
    id := 1
    kind := { readOnly.kind with extract := fun _ _ => .error (.validation "bare" "no layout") } }

def withUnreadable (terminal : Terminal) : Plan :=
  ⟨"r", "host_", [⟨readOnly, ⟨"v", rfl⟩, terminal⟩, ⟨unreadable, ⟨"w", rfl⟩, .sync⟩]⟩

/-- If the first value is to be published, it is in the way; otherwise the second one is, whether or
not the first could be published. -/
theorem withUnreadable_build_decided :
    Plan.start "r" .standard = .ok ⟨"r", "host_", []⟩ ∧
      (∀ body, (withUnreadable .sync).build body = .error (.lacking readOnly .sync)) ∧
      (∀ body, (withUnreadable .cleanup).build body =
        .error (.failed (.validation "bare" "no layout"))) ∧
      ¬ ∃ body region, (withUnreadable .cleanup).withoutIdleSync.build body = .ok region := by
  have started : Plan.start "r" .standard = .ok ⟨"r", "host_", []⟩ := rfl
  have read : ∀ q ∈ [⟨readOnly, .declare, .ok []⟩, ⟨readOnly, .extract, .ok []⟩,
      (⟨readOnly, .cleanup, .ok []⟩ : Inquiry)], ∃ code, q.answer = .ok code := by simp
  have declared : ∀ q ∈ [(⟨unreadable, .declare, .ok []⟩ : Inquiry)],
      ∃ code, q.answer = .ok code := by simp
  obtain ⟨_, -, first, -⟩ := build_decided (p := withUnreadable .sync) started
  obtain ⟨_, -, first', -, -, idle⟩ := build_decided (p := withUnreadable .cleanup) started
  have lacking := (first _ ⟨readOnly, .sync, .error (.unsupported "bare" .sync)⟩ _ _ rfl read rfl).2
  have failing := (first' _ ⟨unreadable, .extract, .error (.validation "bare" "no layout")⟩ _ _ rfl
    (List.forall_mem_append.2 ⟨read, declared⟩) rfl).2
  refine ⟨started, lacking, failing, ?_⟩
  rintro ⟨body, region, built⟩
  rw [idle, failing] at built
  cases built

end Plan

end HostBridge
