import HostBridge.Proofs.Region.Terminals
import HostBridge.Proofs.Run.Onward

/-!
# Regions move onward

The targets of a region's jumps are chosen while its fragments are made, from the first binding on,
and the ladder that defines them is laid out in reverse behind everything that jumps. So every jump
of extraction, of the body and of publication goes onward (`Plan.jumpsAhead_layout`), and with
them the whole region (`Plan.build_onward`).
-/

namespace HostBridge

namespace Block

theorem mem_targets_flatMap {α : Type} {parts : List α} {code : α → Block} {l : Label} :
    l ∈ targets (parts.flatMap code) ↔ ∃ x ∈ parts, l ∈ (code x).targets := by
  rw [targets, List.filterMap_flatMap, List.mem_flatMap]
  rfl

end Block

namespace Plan

variable {code body : Block} {failed done : Label} {rungs : List Rung}

theorem mem_labels_ladder {r : Rung} (mem : r ∈ rungs) : r.fail ∈ (ladder rungs).labels := by
  obtain ⟨below, above, rfl⟩ := List.append_of_mem mem
  have parts : below ++ r :: above = (below ++ [r]) ++ above := by simp
  rw [parts, ladder_append, ladder_snoc, Block.labels_append]
  exact List.mem_append_right _ List.mem_cons_self

/-- All that a region can jump to out of its body stands at its end. -/
theorem top_mem_labels {below above : List Rung} (split : rungs = below ++ above) :
    top failed below ∈ (ladder rungs ++ exits failed done).labels := by
  subst split
  obtain ⟨rest, head⟩ := ladder_eq_cons failed done below
  rw [ladder_append, List.append_assoc, head, Block.labels_append]
  exact List.mem_append_right _ List.mem_cons_self

theorem Tracked.targets_extraction (tracked : Tracked code failed done rungs) {l : Label}
    (mem : l ∈ (extraction rungs).targets) : ∃ r ∈ rungs, l = r.fail := by
  obtain ⟨r, there, mem⟩ := Block.mem_targets_flatMap.1 mem
  obtain ⟨below, above, split⟩ := List.append_of_mem there
  exact ⟨r, there, (tracked.disciplined below r above split).extract.2 l mem⟩

/-- A failing sync jumps to the top of the rungs below its own. -/
theorem Tracked.targets_publication (tracked : Tracked code failed done rungs) {l : Label}
    (mem : l ∈ (publication rungs).targets) :
    ∃ below above, rungs = below ++ above ∧ l = top failed below := by
  obtain ⟨r, there, mem⟩ := Block.mem_targets_flatMap.1 mem
  obtain ⟨below, above, split⟩ := List.append_of_mem (List.mem_reverse.1 there)
  exact ⟨below, r :: above, split, ((tracked.disciplined below r above split).finish.2 l mem).1⟩

theorem Tracked.targets_ladder (tracked : Tracked code failed done rungs) (l : Label) :
    l ∉ (ladder rungs ++ exits failed done).targets := by
  intro mem
  obtain ⟨s, there, target⟩ := Block.mem_targets.1 mem
  rcases List.mem_append.1 there with inside | exit
  · obtain ⟨r, mem', inside⟩ := List.mem_flatMap.1 inside
    obtain ⟨below, above, split⟩ := List.append_of_mem (List.mem_reverse.1 mem')
    rcases List.mem_cons.1 inside with rfl | inside
    · cases target
    · rcases List.mem_cons.1 inside with rfl | inside
      · cases target
      · have cleanup := (tracked.disciplined below r above split).cleanup.2
        rw [List.eq_nil_iff_forall_not_mem] at cleanup
        exact cleanup l (Block.mem_targets.2 ⟨s, inside, target⟩)
  · simp only [exits, List.mem_cons, List.not_mem_nil, or_false] at exit
    rcases exit with rfl | rfl <;> cases target

/-- Each part of a region jumps to the labels of the ladder and the exits, if it jumps out of itself
at all, and those are all defined behind it. -/
theorem jumpsAhead_layout (tracked : Tracked code failed done rungs)
    (ahead : body.JumpsAhead [top failed rungs]) : (layout failed done rungs body).JumpsAhead [] := by
  have straight : (declarations rungs).targets = [] := tracked.silent_declarations.2
  let ways : List Label := (ladder rungs ++ exits failed done).labels
  have ladder_ahead : Block.JumpsAhead (ladder rungs ++ exits failed done) [] :=
    Block.jumpsAhead_of_targets fun l mem => absurd mem (tracked.targets_ladder l)
  have goto_ahead : Block.JumpsAhead (.goto done :: (ladder rungs ++ exits failed done)) [] := by
    refine Block.jumpsAhead_cons.2 ⟨?_, ladder_ahead⟩
    rintro l ⟨⟩
    rw [Block.labels_append]
    exact .inl (List.mem_append_right _ (List.mem_cons_of_mem _ List.mem_cons_self))
  have publication_ahead : Block.JumpsAhead (publication rungs) ways := by
    refine Block.jumpsAhead_of_targets fun l mem => ?_
    obtain ⟨below, above, split, rfl⟩ := tracked.targets_publication mem
    exact top_mem_labels split
  have body_ahead : body.JumpsAhead ways := by
    refine ahead.mono fun l mem => ?_
    rw [List.mem_singleton.1 mem]
    exact top_mem_labels (List.append_nil rungs).symm
  have extraction_ahead : Block.JumpsAhead (extraction rungs) ways := by
    refine Block.jumpsAhead_of_targets fun l mem => ?_
    obtain ⟨r, there, rfl⟩ := tracked.targets_extraction mem
    show r.fail ∈ (ladder rungs ++ exits failed done).labels
    rw [Block.labels_append]
    exact List.mem_append_left _ (mem_labels_ladder there)
  have declarations_ahead : Block.JumpsAhead (declarations rungs) [] := by
    refine Block.jumpsAhead_of_targets fun l mem => ?_
    rwa [straight] at mem
  rw [layout_eq]
  refine declarations_ahead.append (extraction_ahead.append (Block.jumpsAhead_cons.2 ⟨nofun,
    body_ahead.append (publication_ahead.append goto_ahead ?_) ?_⟩) ?_) nofun
  all_goals
    intro l mem
    simp only [Block.labels_append, Block.labels_cons, List.mem_append]
    simp only [ways, Block.labels_append, List.mem_append] at mem
    tauto

/-- Values of built-in kinds leave their region moving onward, if its body does. -/
theorem Assembly.onward {p : Plan} {region : Region} (assembly : p.Assembly body region rungs)
    (builtIn : ∀ e ∈ p.entries, e.node.IsBuiltIn)
    (ahead : body.JumpsAhead [top region.failed rungs]) : region.code.Onward := by
  have tracked := assembly.tracked fun e mem => (builtIn e mem).disciplined
  refine Block.JumpsAhead.onward ?_ assembly.labels
  rw [assembly.code]
  exact jumpsAhead_layout tracked ahead

/-- Let the body jump only to what it is given or further on in itself. Then the region's code moves
onward, whatever the terminals, and so does its run on any host. -/
theorem build_onward {p : Plan} {body : Label → Block} {region : Region}
    (builtIn : ∀ e ∈ p.entries, e.node.IsBuiltIn) (built : p.build body = .ok region)
    (ahead : ∀ target, p.bodyTarget = .ok target → (body target).JumpsAhead [target]) :
    region.code.Onward ∧ ∀ h : Host, h.RunsOnward region.code := by
  obtain ⟨rungs, target, assembly⟩ := assembly_of_build built
  have onward := assembly.onward builtIn (ahead _ target)
  exact ⟨onward, onward.runs⟩

/-- A body that leaves without a handle, and passes over the rest of itself with one. -/
def unlessNull (fail : Label) : Block :=
  [.gotoIfNull (.native "a") fail, .goto ⟨"end_of_body", rfl⟩, .clear (.native "a"),
    .label ⟨"end_of_body", rfl⟩]

theorem unlessNull_jumpsAhead (fail : Label) : (unlessNull fail).JumpsAhead [fail] := by
  unfold unlessNull
  simp only [Block.jumpsAhead_cons, Block.jumpsAhead_nil, Stmt.target?, Block.labels_cons,
    Stmt.definedLabel?, Option.some.injEq, Option.toList_none, Option.toList_some,
    Block.labels_nil, List.nil_append, List.append_nil, List.mem_singleton, and_true]
  refine ⟨fun l same => .inr same.symm, fun l same => .inl same.symm, ?_, ?_⟩
  all_goals
    intro l none
    cases none

/-- With a handle in its slot a run takes 21 steps through the region's 28 statements. -/
theorem sharedInteger_build_onward :
    ∃ region, handleAndCounter.build unlessNull = .ok region ∧ region.code.length = 28 ∧
      region.code.Onward ∧ sharedInteger.RunsOnward region.code ∧
      (Machine.start sharedInteger).positions region.code 100 =
        [0, 1, 2, 3, 4, 5, 6, 7, 8, 9, 11, 12, 13, 14, 15, 16, 17, 18, 19, 20, 27] := by
  obtain ⟨region, built, length, visited⟩ : ∃ region, handleAndCounter.build unlessNull = .ok region ∧
      region.code.length = 28 ∧ (Machine.start sharedInteger).positions region.code 100 =
        [0, 1, 2, 3, 4, 5, 6, 7, 8, 9, 11, 12, 13, 14, 15, 16, 17, 18, 19, 20, 27] := ⟨_, rfl, rfl, rfl⟩
  obtain ⟨onward, runs⟩ := build_onward handleAndCounter_builtIn built
    fun target _ => unlessNull_jumpsAhead target
  exact ⟨region, built, length, onward, runs sharedInteger, visited⟩

end Plan

end HostBridge
