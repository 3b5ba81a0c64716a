import HostBridge.Proofs.Region.Assembly
import HostBridge.Proofs.Region.Marks
import HostBridge.Proofs.Run.Control
import HostBridge.Proofs.Run.Statement

/-!
# The course of a run

What a run of a region passes, for kinds of any sort whose hooks keep to their place
(`Kind.Disciplined`) and for bodies of any sort that leave only by their label. The run may
fail at an extraction, in the body or at a sync, and comes down the ladder from there:
`Plan.Course` has one case for each, and every run that ends takes one (`Plan.run_course`).
-/

namespace HostBridge

/-- The blocks of the hooks have no comments and no labels. Declaring and cleaning up does not
jump, and extracting and publishing only to the label that was given. -/
structure Kind.Disciplined (k : Kind) : Prop where
  declare : ∀ b block, k.declare b = .ok block → block.Silent ∧ block.targets = []
  extract : ∀ b fail block, k.extract b fail = .ok block →
    block.Silent ∧ ∀ l ∈ block.targets, l = fail
  cleanup : ∀ b block, k.cleanup b = .ok block → block.Silent ∧ block.targets = []
  sync : ∀ b fail block, k.sync b fail = .ok block → block.Silent ∧ ∀ l ∈ block.targets, l = fail

/-- The body has no comments, and jumps only to its own labels and to the one it was given. -/
structure Block.Confined (block : Block) (fail : Label) : Prop where
  uncommented : ∀ text, .comment text ∉ block
  targets : ∀ l ∈ block.targets, l = fail ∨ l ∈ block.labels

namespace Plan

open Machine

/-- The code of a rung keeps to its place. -/
structure Rung.Disciplined (below : Label) (r : Rung) : Prop where
  declare : r.fragment.declare.Silent ∧ r.fragment.declare.targets = []
  extract : r.fragment.extract.Silent ∧ ∀ l ∈ r.fragment.extract.targets, l = r.fail
  cleanup : r.fragment.cleanup.Silent ∧ r.fragment.cleanup.targets = []
  finish : r.fragment.finish.Silent ∧
    ∀ l ∈ r.fragment.finish.targets, l = below ∧ r.fragment.terminal = .sync

theorem Raised.disciplined {stem : String} {failed : Label} {below : List Rung} {e : Entry} {r : Rung}
    (raised : Raised stem failed below e r) (disciplined : e.node.kind.Disciplined) :
    r.Disciplined (top failed below) where
  declare := disciplined.declare _ _ raised.emitted.declare
  extract := disciplined.extract _ _ _ raised.emitted.extract
  cleanup := disciplined.cleanup _ _ raised.emitted.cleanup
  finish := by
    cases terminal : e.terminal with
    | cleanup =>
      rw [raised.emitted.finish_cleanup terminal]
      obtain ⟨silent, straight⟩ := disciplined.cleanup _ _ raised.emitted.cleanup
      refine ⟨silent, fun l mem => ?_⟩
      rw [straight] at mem
      cases mem
    | sync =>
      obtain ⟨silent, targets⟩ := disciplined.sync _ _ _ (raised.emitted.finish_sync terminal)
      exact ⟨silent, fun l mem => ⟨targets l mem, raised.emitted.terminal.trans terminal⟩⟩

/-- The rungs of a region, with code that keeps to its place and labels where they belong. -/
structure Tracked (code : Block) (failed done : Label) (rungs : List Rung) : Prop
    extends Landings code failed done rungs where
  disciplined : ∀ below r above, rungs = below ++ r :: above → r.Disciplined (Plan.top failed below)

theorem Tracked.below {code : Block} {failed done : Label} {rungs more : List Rung}
    (tracked : Tracked code failed done (rungs ++ more)) : Tracked code failed done rungs where
  toLandings := tracked.toLandings.below
  disciplined := by
    rintro below r above rfl
    exact tracked.disciplined below r (above ++ more) (by simp)

/-! ## The marks of each part -/

def extractMarks (rungs : List Rung) : List Mark :=
  rungs.map fun r => .extract r.fragment.binding

/-- On the normal path, from the last rung down. -/
def finishMarks (rungs : List Rung) : List Mark :=
  rungs.reverse.map fun r => .act r.fragment.terminal r.fragment.binding

theorem finishMarks_snoc (rungs : List Rung) (r : Rung) :
    finishMarks (rungs ++ [r]) =
      [.act r.fragment.terminal r.fragment.binding] ++ finishMarks rungs := by
  simp [finishMarks]

/-- Down the rungs of the ladder. -/
def descentMarks (rungs : List Rung) : List Mark :=
  rungs.reverse.flatMap fun r => [.label r.fail, .act .cleanup r.fragment.binding]

/-- On the ladder down to the end. -/
def ladderMarks (failed done : Label) (rungs : List Rung) : List Mark :=
  descentMarks rungs ++ [.label failed, .label done]

theorem ladderMarks_snoc (failed done : Label) (rungs : List Rung) (r : Rung) :
    ladderMarks failed done (rungs ++ [r]) =
      [.label r.fail, .act .cleanup r.fragment.binding] ++ ladderMarks failed done rungs := by
  simp [ladderMarks, descentMarks]

/-- The ways through a region: the failure label that is jumped to, if any, and what is passed.
`own` are the labels of the body. -/
inductive Course (failed done : Label) (rungs : List Rung) (own : List Label) :
    Option Label → List Mark → Prop where
  /-- To the end of the normal path. -/
  | whole {passed : List Label} (inside : ∀ l ∈ passed, l ∈ own) :
      Course failed done rungs own none
        (extractMarks rungs ++ .body :: (passed.map .label ++ (finishMarks rungs ++ [.label done])))
  /-- An extraction fails. -/
  | unread {below above : List Rung} {r : Rung} (split : rungs = below ++ r :: above) :
      Course failed done rungs own (some r.fail)
        (extractMarks (below ++ [r]) ++ ladderMarks failed done (below ++ [r]))
  /-- The body leaves, or a sync fails: the terminals of the rungs above were taken till then. -/
  | left {passed : List Label} {below above : List Rung} (inside : ∀ l ∈ passed, l ∈ own)
      (split : rungs = below ++ above) (sync : ∀ r ∈ above.head?, r.fragment.terminal = .sync) :
      Course failed done rungs own (some (top failed below))
        (extractMarks rungs ++ .body ::
          (passed.map .label ++ (finishMarks above ++ ladderMarks failed done below)))

/-! ## Runs take a course -/

section Runs

variable {code : Block} {failed done : Label} {rungs : List Rung} {m final : Machine}

/-- What a run passes from one state to another. -/
def Passes (m m' : Machine) (marks : List Mark) : Prop :=
  m'.trace.toList = m.trace.toList ++ marks.map Mark.text

theorem Passes.trans {mid m' : Machine} {marks more : List Mark} (first : Passes m mid marks)
    (second : Passes mid m' more) : Passes m m' (marks ++ more) := by
  rw [Passes, second, first, List.map_append, List.append_assoc]

theorem eq_of_ends (ends : Ends code m final) (done : m.ahead code = []) : final = m := by
  obtain ⟨-, n, steps⟩ := ends
  cases steps with
  | refl => rfl
  | step fetch => cases (halted_iff_ahead.2 done).symm.trans fetch

/-- From the top of some rungs a run comes down to the end. -/
theorem passes_ladder (tracked : Tracked code failed done rungs) (ends : Ends code m final)
    (at_ : m.ahead code = ladder rungs ++ exits failed done) :
    Passes m final (ladderMarks failed done rungs) := by
  induction rungs using List.reverseRecOn generalizing m with
  | nil =>
    obtain ⟨mid₁, -, ends₁, ahead₁, trace₁⟩ := ends.pass at_ rfl
    obtain ⟨mid₂, -, ends₂, ahead₂, trace₂⟩ := ends₁.pass ahead₁ rfl
    cases eq_of_ends ends₂ ahead₂
    rw [Passes, trace₂, trace₁]
    simp [ladderMarks, descentMarks, Stmt.noted, Mark.text]
  | append_singleton rungs r ih =>
    rw [ladder_snoc, List.cons_append, List.cons_append, List.append_assoc] at at_
    obtain ⟨mid₁, -, ends₁, ahead₁, trace₁⟩ := ends.pass at_ rfl
    obtain ⟨mid₂, -, ends₂, ahead₂, trace₂⟩ := ends₁.pass ahead₁ rfl
    obtain ⟨silent, straight⟩ := (tracked.disciplined rungs r [] rfl).cleanup
    obtain ⟨mid₃, n, -, ends₃, trace₃, ahead₃⟩ := ends₂.straight ahead₂ silent straight
    rw [ladderMarks_snoc]
    refine Passes.trans ?_ (ih tracked.below ends₃ ahead₃)
    rw [Passes, trace₃, trace₂, trace₁]
    simp [Stmt.noted, Mark.text, Terminal.action, Rung.name]

/-- A run that jumps to the top of some rungs comes down the ladder from there. -/
theorem passes_of_jumps {below above : List Rung} {l : Label} {mid : Machine}
    (tracked : Tracked code failed done rungs) (split : rungs = below ++ above)
    (head : top failed below = l) (ends : Ends code m final) (jumps : Jumps code m l mid) :
    Passes mid final (ladderMarks failed done below) := by
  subst split head
  obtain ⟨i, position, target⟩ := tracked.top below above rfl
  obtain ⟨n, steps⟩ := jumps.steps
  obtain ⟨-, -, -, -, -, -, -, landed⟩ := jumps
  cases position.symm.trans landed
  exact passes_ladder tracked.below (ends.of_steps steps) target

/-- From behind the body a run comes to the end, or a sync fails and the run comes down the ladder
below it. -/
theorem passes_publication {rest : Block} (tracked : Tracked code failed done rungs)
    (ends : Ends code m final) (at_ : m.ahead code = publication rungs ++ .goto done :: rest) :
    Passes m final (finishMarks rungs ++ [.label done]) ∨
    ∃ below r above mid, rungs = below ++ r :: above ∧ r.fragment.terminal = .sync ∧
      Jumps code m (top failed below) mid ∧
      Passes m final (finishMarks (r :: above) ++ ladderMarks failed done below) := by
  induction rungs using List.reverseRecOn generalizing m with
  | nil =>
    obtain ⟨mid, run, ends'⟩ := ends.step (fetch_of_ahead at_)
    obtain ⟨i, position, target⟩ := tracked.done
    cases (step_goto position).symm.trans run
    obtain ⟨last, -, ends'', ahead, trace⟩ := ends'.pass target rfl
    cases eq_of_ends ends'' ahead
    exact .inl trace
  | append_singleton rungs r ih =>
    rw [publication_snoc, List.cons_append, List.append_assoc] at at_
    obtain ⟨noted, note, ends₁, ahead₁, trace₁⟩ := ends.pass at_ rfl
    obtain ⟨silent, targets⟩ := (tracked.disciplined rungs r [] rfl).finish
    obtain ⟨mid, n, steps, ends₂, trace₂, outcome⟩ := ends₁.block ahead₁ silent
    rcases outcome with ahead₂ | ⟨l, mem, jumps⟩
    · have first : Passes m mid [.act r.fragment.terminal r.fragment.binding] :=
        trace₂.trans trace₁
      rcases ih tracked.below ends₂ ahead₂ with
        passes | ⟨below, s, above, last, rfl, sync, jumps, passes⟩
      · left
        rw [finishMarks_snoc]
        exact first.trans passes
      · refine .inr ⟨below, s, above ++ [r], last, List.append_assoc .., sync,
          jumps.of_steps (note.trans steps), ?_⟩
        rw [← List.cons_append, finishMarks_snoc]
        exact first.trans passes
    · obtain ⟨rfl, sync⟩ := targets l mem
      exact .inr ⟨rungs, r, [], mid, rfl, sync, jumps.of_steps note,
        Passes.trans (trace₂.trans trace₁) (passes_of_jumps tracked rfl rfl ends₁ jumps)⟩

/-- All slots are read, or one cannot be and the run comes down the ladder from there. -/
theorem passes_extraction {more : List Rung} {rest : Block}
    (tracked : Tracked code failed done (rungs ++ more)) (ends : Ends code m final)
    (at_ : m.ahead code = extraction rungs ++ rest) :
    (∃ mid n, Steps code n m mid ∧ Ends code mid final ∧ mid.ahead code = rest ∧
      Passes m mid (extractMarks rungs)) ∨
    ∃ below r above mid, rungs = below ++ r :: above ∧ Jumps code m r.fail mid ∧
      Passes m final (extractMarks (below ++ [r]) ++ ladderMarks failed done (below ++ [r])) := by
  induction rungs using List.reverseRecOn generalizing more rest with
  | nil => exact .inl ⟨m, 0, .refl m, ends, at_, (List.append_nil _).symm⟩
  | append_singleton rungs r ih =>
    rw [extraction_append, List.append_assoc] at at_
    rw [List.append_assoc] at tracked
    rcases ih tracked at_ with
      ⟨mid, n, steps, ends₁, ahead₁, trace₁⟩ | ⟨below, s, above, last, rfl, jumps, passes⟩
    · rw [extraction_cons, List.cons_append, List.append_assoc] at ahead₁
      obtain ⟨noted, note, ends₂, ahead₂, trace₂⟩ := ends₁.pass ahead₁ rfl
      obtain ⟨silent, targets⟩ := (tracked.disciplined rungs r more rfl).extract
      obtain ⟨mid', k, steps', ends₃, trace₃, outcome⟩ := ends₂.block ahead₂ silent
      have first : Passes m mid' (extractMarks (rungs ++ [r])) := by
        rw [Passes, trace₃, trace₂, trace₁]
        simp [extractMarks, Stmt.noted, Mark.text, Rung.name]
      rcases outcome with ahead₃ | ⟨l, mem, jumps⟩
      · exact .inl ⟨mid', n + 1 + k, (steps.trans note).trans steps', ends₃, ahead₃, first⟩
      · cases targets l mem
        have passes := passes_of_jumps tracked (List.append_cons rungs r more)
          (top_snoc failed rungs r) ends₂ jumps
        exact .inr ⟨rungs, r, [], mid', rfl, jumps.of_steps (steps.trans note), first.trans passes⟩
    · exact .inr ⟨below, s, above ++ [r], last, by simp, jumps, passes⟩

theorem Tracked.silent_declarations (tracked : Tracked code failed done rungs) :
    (declarations rungs).Silent ∧ (declarations rungs).targets = [] := by
  induction rungs using List.reverseRecOn with
  | nil => exact ⟨fun s mem => absurd mem List.not_mem_nil, rfl⟩
  | append_singleton rungs r ih =>
    obtain ⟨silent, straight⟩ := ih tracked.below
    obtain ⟨silent', straight'⟩ := (tracked.disciplined rungs r [] rfl).declare
    have parts : declarations (rungs ++ [r]) = declarations rungs ++ r.fragment.declare := by
      simp [declarations]
    rw [parts]
    constructor
    · intro s mem
      exact (List.mem_append.1 mem).elim (silent s) (silent' s)
    · rw [Block.targets, List.filterMap_append]
      rw [Block.targets] at straight straight'
      rw [straight, straight', List.append_nil]

/-- The body goes on behind it or leaves, and passes nothing but labels of its own. -/
theorem passes_body {before body after : Block} {l : Label} (confined : body.Confined l)
    (laid : code = before ++ (body ++ after)) (nodup : code.labels.Nodup) (ends : Ends code m final)
    (at_ : m.ahead code = body ++ after) (more : after ≠ []) :
    ∃ (mid : Machine) (passed : List Label), Ends code mid final ∧
      (∀ l ∈ passed, l ∈ body.labels) ∧
      Passes m mid (passed.map .label) ∧
      ((mid.ahead code = after ∧ ∃ n, Steps code n m mid) ∨ Jumps code m l mid) := by
  have here : m.next = before.length := by
    have length := congrArg List.length at_
    have := List.length_pos_iff.2 more
    rw [ahead, List.length_drop, laid, List.length_append, List.length_append] at length
    omega
  obtain ⟨mid, passed, ends', inside, trace, outcome⟩ :=
    ends.body laid nodup confined.uncommented confined.targets (by omega) (by omega)
  refine ⟨mid, passed, ends', inside, ?_, ?_⟩
  · rw [Passes, trace, List.map_map]
    rfl
  · rcases outcome with ⟨next, steps⟩ | jumps
    · refine .inl ⟨?_, steps⟩
      rw [ahead, next, laid, ← List.append_assoc, ← List.length_append, List.drop_left]
    · exact .inr jumps

/-- Every run that ends takes a course, and jumps to its failure label if it has one. -/
theorem run_course {body : Block} {h : Host} (tracked : Tracked code failed done rungs)
    (laid : code = layout failed done rungs body) (nodup : code.labels.Nodup)
    (confined : body.Confined (top failed rungs)) (ends : Ends code (Machine.start h) final) :
    ∃ exit? marks, Course failed done rungs body.labels exit? marks ∧
      Passes (Machine.start h) final marks ∧
      ∀ l ∈ exit?, ∃ mid, Jumps code (Machine.start h) l mid := by
  rw [layout_eq] at laid
  obtain ⟨silent, straight⟩ := tracked.silent_declarations
  obtain ⟨m₁, a, steps₁, ends₁, trace₁, ahead₁⟩ := ends.straight laid silent straight
  have tracked' : Tracked code failed done (rungs ++ []) := by rwa [List.append_nil]
  rcases passes_extraction tracked' ends₁ ahead₁ with
    ⟨m₂, b, steps₂, ends₂, ahead₂, trace₂⟩ | ⟨below, r, above, mid, split, jumps, passes⟩
  · obtain ⟨m₃, note, ends₃, ahead₃, trace₃⟩ := ends₂.pass ahead₂ rfl
    have steps := (steps₁.trans steps₂).trans note
    have parts : code = (declarations rungs ++ (extraction rungs ++ [.comment "body"])) ++
        (body ++ (publication rungs ++ (.goto done :: (ladder rungs ++ exits failed done)))) := by
      simp [laid]
    obtain ⟨m₄, passed, ends₄, inside, trace₄, outcome⟩ :=
      passes_body confined parts nodup ends₃ ahead₃ (by simp)
    have first : Passes (Machine.start h) m₄ (extractMarks rungs ++ .body :: passed.map .label) := by
      rw [Passes, trace₄, trace₃, trace₂, trace₁]
      simp [Stmt.noted, Mark.text]
    rcases outcome with ⟨ahead₄, c, steps₄⟩ | jumps
    · rcases passes_publication tracked ends₄ ahead₄ with
        passes | ⟨below, r, above, mid, split, sync, jumps, passes⟩
      · refine ⟨_, _, .whole inside, ?_, fun l none => ?_⟩
        · simpa using first.trans passes
        · cases none
      · refine ⟨_, _, .left inside split ?_, ?_, ?_⟩
        · rintro s ⟨⟩
          exact sync
        · simpa using first.trans passes
        · rintro l ⟨⟩
          exact ⟨mid, jumps.of_steps (steps.trans steps₄)⟩
    · have whole : rungs = rungs ++ [] := (List.append_nil rungs).symm
      have passes := passes_of_jumps tracked whole rfl ends₃ jumps
      refine ⟨_, _, .left inside whole (fun r none => ?_), ?_, ?_⟩
      · cases none
      · simpa [finishMarks] using first.trans passes
      · rintro l ⟨⟩
        exact ⟨m₄, jumps.of_steps steps⟩
  · refine ⟨_, _, .unread split, ?_, ?_⟩
    · rw [Passes, passes, trace₁]
    · rintro l ⟨⟩
      exact ⟨mid, jumps.of_steps steps₁⟩

end Runs

end Plan
end HostBridge
