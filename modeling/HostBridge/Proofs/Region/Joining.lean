import HostBridge.Proofs.Region.BuiltIn
import HostBridge.Proofs.Region.Marks
import HostBridge.Proofs.Run.Embedding
import HostBridge.Proofs.Text.Digits

/-!
# Blocks one behind the other

Where two blocks define no label in common, running the one and then the other is running the
joined block (`Host.run_append`).

That is so for regions of different stems. What a region puts behind its stem to name a label
has a last part without underscores, which tells where the stem ends (`Ending.eq_of_text`).
-/

namespace HostBridge

/-! ## The names of a region's labels -/

/-- The last occurrence of a character splits a text in one way. -/
theorem split_unique {α : Type} {front front' back back' : List α} {c : α}
    (out : c ∉ back) (out' : c ∉ back') (same : front ++ c :: back = front' ++ c :: back') :
    front = front' ∧ back = back' := by
  rcases List.append_eq_append_iff.1 same with
    ⟨between, front_eq, back_eq⟩ | ⟨between, front_eq, back_eq⟩
  · cases between with
    | nil =>
      rw [List.append_nil] at front_eq
      exact ⟨front_eq.symm, (List.cons.inj back_eq).2⟩
    | cons _ between =>
      apply absurd _ out
      rw [(List.cons.inj back_eq).2]
      simp
  · cases between with
    | nil =>
      rw [List.append_nil] at front_eq
      exact ⟨front_eq, (List.cons.inj back_eq).2.symm⟩
    | cons _ between =>
      apply absurd _ out'
      rw [(List.cons.inj back_eq).2]
      simp

/-- What a region puts behind its stem to name a label. -/
inductive Ending where
  | failed
  | done
  | fail (index : Nat)

namespace Ending

/-- What stands before the last underscore. -/
def middle : Ending → String
  | failed => ""
  | done => ""
  | fail _ => "_fail"

/-- What stands behind the last underscore. -/
def last : Ending → String
  | failed => "failed"
  | done => "done"
  | fail index => toString index

def text (e : Ending) : String :=
  e.middle ++ ("_" ++ e.last)

theorem text_fail (index : Nat) : text (.fail index) = "_fail_" ++ toString index := by
  unfold text middle last
  rw [← String.append_assoc]
  rfl

theorem underscore_not_mem_last (e : Ending) : '_' ∉ e.last.toList := by
  cases e with
  | failed => decide
  | done => decide
  | fail index =>
    unfold last
    rw [toList_toString]
    exact Nat.underscore_not_in_toDigits

/-- Two words and the numbers. -/
theorem last_injective : Function.Injective last := by
  have failed_ne (index : Nat) : "failed" ≠ toString index :=
    ne_toString (by decide : 'f' ∈ "failed".toList) rfl index
  have done_ne (index : Nat) : "done" ≠ toString index :=
    ne_toString (by decide : 'd' ∈ "done".toList) rfl index
  intro e f same
  cases e with
  | failed =>
    cases f with
    | failed => rfl
    | done => exact absurd same (by decide)
    | fail index => exact absurd same (failed_ne index)
  | done =>
    cases f with
    | failed => exact absurd same (by decide)
    | done => rfl
    | fail index => exact absurd same (done_ne index)
  | fail index =>
    cases f with
    | failed => exact absurd same.symm (failed_ne index)
    | done => exact absurd same.symm (done_ne index)
    | fail index' =>
      rw [toString_injective same]

/-- A label's name tells the stem of its region and what it is there. -/
theorem eq_of_text {stem stem' : String} {e f : Ending} (same : stem ++ e.text = stem' ++ f.text) :
    stem = stem' ∧ e = f := by
  have chars : (stem ++ e.middle).toList ++ '_' :: e.last.toList =
      (stem' ++ f.middle).toList ++ '_' :: f.last.toList := by
    have := congrArg String.toList same
    simpa [text] using this
  obtain ⟨front, last⟩ := split_unique e.underscore_not_mem_last f.underscore_not_mem_last chars
  obtain rfl := last_injective (String.toList_inj.1 last)
  exact ⟨(String.append_left_inj _).1 (String.toList_inj.1 front), rfl⟩

theorem stem_eq {stem stem' : String} {e f : Ending} (same : stem ++ e.text = stem' ++ f.text) :
    stem = stem' :=
  (eq_of_text same).1

end Ending

/-! ## The labels of a region -/

/-- No hook of the kind defines labels. -/
structure Kind.Unlabelled (k : Kind) : Prop where
  declare : ∀ b code, k.declare b = .ok code → code.labels = []
  extract : ∀ b fail code, k.extract b fail = .ok code → code.labels = []
  cleanup : ∀ b code, k.cleanup b = .ok code → code.labels = []
  sync : ∀ b fail code, k.sync b fail = .ok code → code.labels = []

theorem Node.IsBuiltIn.unlabelled {n : Node} (builtIn : n.IsBuiltIn) : n.kind.Unlabelled := by
  rcases builtIn with ⟨ident, kind⟩ | ⟨type, ident, kind⟩
  · rw [kind]
    constructor
    all_goals
      intros
      next ok => cases ok; rfl
  · rw [kind]
    constructor
    all_goals
      intros
      next ok => cases ok; rfl

theorem Block.labels_flatMap_eq_nil {α : Type} {parts : List α} {code : α → Block}
    (unlabelled : ∀ x ∈ parts, (code x).labels = []) : labels (parts.flatMap code) = [] := by
  rw [labels, List.filterMap_flatMap, List.flatMap_eq_nil_iff]
  exact unlabelled

namespace Plan

/-- None of a rung's code defines labels. -/
structure Rung.Unlabelled (r : Rung) : Prop where
  declare : r.fragment.declare.labels = []
  extract : r.fragment.extract.labels = []
  finish : r.fragment.finish.labels = []
  cleanup : r.fragment.cleanup.labels = []

theorem Raised.unlabelled {stem : String} {failed : Label} {below : List Rung} {e : Entry}
    {r : Rung} (raised : Raised stem failed below e r) (unlabelled : e.node.kind.Unlabelled) :
    r.Unlabelled where
  declare := unlabelled.declare _ _ raised.emitted.declare
  extract := unlabelled.extract _ _ _ raised.emitted.extract
  finish := by
    cases terminal : e.terminal with
    | cleanup =>
      rw [raised.emitted.finish_cleanup terminal]
      exact unlabelled.cleanup _ _ raised.emitted.cleanup
    | sync => exact unlabelled.sync _ _ _ (raised.emitted.finish_sync terminal)
  cleanup := unlabelled.cleanup _ _ raised.emitted.cleanup

theorem labels_ladder {rungs : List Rung} (unlabelled : ∀ r ∈ rungs, r.Unlabelled) :
    (ladder rungs).labels = rungs.reverse.map (·.fail) := by
  induction rungs using List.reverseRecOn with
  | nil => rfl
  | append_singleton rungs r ih =>
    have below := ih fun s mem => unlabelled s (List.mem_append_left _ mem)
    have cleanup := (unlabelled r (by simp)).cleanup
    rw [ladder_snoc, Block.labels_cons, Block.labels_cons, Block.labels_append, cleanup, below,
      List.reverse_append]
    rfl

/-- If neither hooks nor the body define labels, the region has those of its ladder and its end. -/
theorem labels_layout {failed done : Label} {rungs : List Rung} {body : Block}
    (unlabelled : ∀ r ∈ rungs, r.Unlabelled) (plain : body.labels = []) :
    (layout failed done rungs body).labels = rungs.reverse.map (·.fail) ++ [failed, done] := by
  have declarations : (declarations rungs).labels = [] :=
    Block.labels_flatMap_eq_nil fun r mem => (unlabelled r mem).declare
  have extraction : (extraction rungs).labels = [] :=
    Block.labels_flatMap_eq_nil fun r mem => (unlabelled r mem).extract
  have publication : (publication rungs).labels = [] :=
    Block.labels_flatMap_eq_nil fun r mem => (unlabelled r (List.mem_reverse.1 mem)).finish
  have comment : (Stmt.comment "body").definedLabel? = none := rfl
  have goto : (Stmt.goto done).definedLabel? = none := rfl
  have exits : (exits failed done).labels = [failed, done] := rfl
  simp only [layout_eq, Block.labels_append, Block.labels_cons, comment, goto, Option.toList_none,
    declarations, extraction, publication, exits, plain, labels_ladder unlabelled, List.nil_append]

theorem Assembly.ending_of_mem {p : Plan} {body : Block} {region : Region} {rungs : List Rung}
    (assembly : p.Assembly body region rungs) (unlabelled : ∀ e ∈ p.entries, e.node.kind.Unlabelled)
    (plain : body.labels = []) {l : Label} (mem : l ∈ region.code.labels) :
    ∃ e : Ending, l.text = p.stem ++ e.text := by
  have raised (r : Rung) (there : r ∈ rungs) : ∃ below e, e ∈ p.entries ∧
      Raised p.stem region.failed below e r := by
    obtain ⟨below, above, rfl⟩ := List.append_of_mem there
    obtain ⟨before, e, after, split, -, raised⟩ := rungs_at_rung assembly.raised
    exact ⟨below, e, by rw [split]; simp, raised⟩
  rw [assembly.code, labels_layout _ plain, List.mem_append, List.mem_map] at mem
  · rcases mem with ⟨r, there, rfl⟩ | exit
    · obtain ⟨below, e, -, raised⟩ := raised r (List.mem_reverse.1 there)
      refine ⟨.fail below.length, ?_⟩
      rw [raised.fail_text, Ending.text_fail, String.append_assoc]
    · rcases List.mem_cons.1 exit with rfl | exit
      · exact ⟨.failed, assembly.failed_text⟩
      · cases List.mem_singleton.1 exit
        exact ⟨.done, assembly.done_text⟩
  · intro r there
    obtain ⟨below, e, mem', raised⟩ := raised r there
    exact raised.unlabelled (unlabelled e mem')

end Plan

/-- The code of a region with that stem, whose hooks and body define no labels. -/
def Block.IsRegionOf (stem : String) (code : Block) : Prop :=
  ∃ (p : Plan) (body : Label → Block) (region : Region), p.stem = stem ∧
    (∀ e ∈ p.entries, e.node.kind.Unlabelled) ∧ (∀ target, (body target).labels = []) ∧
    p.build body = .ok region ∧ region.code = code

theorem Block.IsRegionOf.ending_of_mem {stem : String} {code : Block}
    (region : code.IsRegionOf stem) {l : Label} (mem : l ∈ code.labels) :
    ∃ e : Ending, l.text = stem ++ e.text := by
  obtain ⟨p, body, region, rfl, unlabelled, plain, built, rfl⟩ := region
  obtain ⟨rungs, -, assembly⟩ := Plan.assembly_of_build built
  exact assembly.ending_of_mem unlabelled (plain _) mem

/-- Regions of different stems define no label in common. -/
theorem Block.IsRegionOf.apart {stem stem' : String} {a b : Block} (region : a.IsRegionOf stem)
    (region' : b.IsRegionOf stem') (different : stem ≠ stem') : ∀ l ∈ a.labels, l ∉ b.labels := by
  intro l mem mem'
  obtain ⟨e, text⟩ := region.ending_of_mem mem
  obtain ⟨f, text'⟩ := region'.ending_of_mem mem'
  exact different (Ending.stem_eq (text.symm.trans text'))

/-! ## Joined blocks -/

/-- Running the block on the host ends well after at most that many steps. -/
def Host.EndsWithin (h : Host) (code : Block) (steps : Nat) : Prop :=
  ∃ m, (Machine.start h).runFor code steps = .ok m

/-- The steps of a run that ends well, with what its caller sees at the end. -/
theorem Host.EndsWithin.steps {h h' : Host} {code : Block} {n : Nat} {trace : Array String}
    (ends : h.EndsWithin code n) (run : h.run code = (.ok trace, h')) :
    ∃ k m, k ≤ n ∧ Machine.Steps code k (Machine.start h) m ∧ Machine.Halted code m ∧
      m.trace = trace ∧ m.host = h' := by
  obtain ⟨m, ends⟩ := ends
  obtain ⟨k, bound, steps, halted⟩ := Machine.steps_of_runFor ends
  refine ⟨k, m, bound, steps, halted, ?_⟩
  by_cases enough : k ≤ stepLimit
  · rw [Host.run, Machine.runFor_of_steps steps halted enough] at run
    cases run
    exact ⟨rfl, rfl⟩
  · obtain ⟨left, short⟩ := Machine.runFor_of_short steps (Nat.lt_of_not_le enough)
    rw [Host.run, short] at run
    cases run

/-- Two blocks that run well one after the other on a host run alike as one block, with the same
host at the end and the one trace behind the other. They may not define a label in common;
regions of different stems do not, so far as hooks and bodies define none. -/
theorem Host.run_append {a b : Block} {h mid h' : Host} {first second : Array String} {i j : Nat}
    (apart : (∀ l ∈ a.labels, l ∉ b.labels) ∨
      ∃ stem stem', stem ≠ stem' ∧ a.IsRegionOf stem ∧ b.IsRegionOf stem')
    (run : h.run a = (.ok first, mid)) (run' : mid.run b = (.ok second, h'))
    (ends : h.EndsWithin a i) (ends' : mid.EndsWithin b j) (limit : i + j ≤ stepLimit) :
    (∀ l ∈ a.labels, l ∉ b.labels) ∧ h.run (a ++ b) = (.ok (first ++ second), h') := by
  have apart : ∀ l ∈ a.labels, l ∉ b.labels := by
    rcases apart with apart | ⟨stem, stem', different, region, region'⟩
    · exact apart
    · exact region.apart region' different
  refine ⟨apart, ?_⟩
  obtain ⟨k, m, bound, steps, halted, rfl, rfl⟩ := ends.steps run
  obtain ⟨k', n, bound', steps', halted', rfl, rfl⟩ := ends'.steps run'
  obtain ⟨n', joined, halted, host, trace⟩ := steps.append apart halted steps' halted'
  rw [Host.run, Machine.runFor_of_steps joined halted (by omega)]
  show (Except.ok n'.trace, n'.host) = _
  rw [host, trace]

/-- Two regions without a body that differ in their stems alone. -/
theorem sharedInteger_run_append :
    ∃ a b mid h', a.IsRegionOf "r" ∧ b.IsRegionOf "s" ∧
      sharedInteger.run a =
        (.ok #["extract a", "extract n", "body", "sync n", "sync a", "r_done:"], mid) ∧
      mid.run b = (.ok #["extract a", "extract n", "body", "sync n", "sync a", "s_done:"], h') ∧
      sharedInteger.run (a ++ b) = (.ok #["extract a", "extract n", "body", "sync n", "sync a",
        "r_done:", "extract a", "extract n", "body", "sync n", "sync a", "s_done:"], h') := by
  have unlabelled (e : Entry) (mem : e ∈ Plan.handleAndCounter.entries) :
      e.node.kind.Unlabelled := (Plan.handleAndCounter_builtIn e mem).unlabelled
  obtain ⟨a, b, mid, h', region, region', run, run', ends, ends'⟩ : ∃ (a b : Block) (mid h' : Host),
      a.IsRegionOf "r" ∧ b.IsRegionOf "s" ∧
      sharedInteger.run a =
        (.ok #["extract a", "extract n", "body", "sync n", "sync a", "r_done:"], mid) ∧
      mid.run b = (.ok #["extract a", "extract n", "body", "sync n", "sync a", "s_done:"], h') ∧
      sharedInteger.EndsWithin a 20 ∧ mid.EndsWithin b 20 :=
    ⟨_, _, _, _, ⟨Plan.handleAndCounter, fun _ => [], _, rfl, unlabelled, fun _ => rfl, rfl, rfl⟩,
      ⟨{ Plan.handleAndCounter with stem := "s" }, fun _ => [], _, rfl, unlabelled, fun _ => rfl,
        rfl, rfl⟩,
      rfl, rfl, ⟨_, rfl⟩, ⟨_, rfl⟩⟩
  have joined := Host.run_append (.inr ⟨"r", "s", by decide, region, region'⟩) run run' ends ends'
    (by decide)
  exact ⟨a, b, mid, h', region, region', run, run', joined.2⟩

end HostBridge
