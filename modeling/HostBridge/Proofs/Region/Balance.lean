import HostBridge.Proofs.Region.Editing
import HostBridge.Proofs.Region.Publication
import HostBridge.Proofs.Region.Refusal
import HostBridge.Proofs.Splitting

/-!
# Balance over whole runs

A region of built-in values around a body of edits leaves a balanced host balanced, whichever
way it takes: through all of its parts, or from a bad slot, an edit that leaves or a failed box
down the ladder (`Plan.run_balanced`). Slots stay, so regions can be run one after another
(`Host.runAll_balanced`).
-/

namespace HostBridge

theorem Host.slotUsable_of_balanced {h : Host} {name : String} (balanced : h.balance = .balanced)
    (has : h.HasSlot name) : h.SlotUsable name := by
  obtain ⟨handle, there⟩ := has
  refine ⟨handle, there, ?_⟩
  rintro a rfl
  have := Host.holders_pos there
  have := (Host.balance_eq_balanced_iff h).1 balanced a
  omega

/-- `h'` is balanced and has the slots of `h`. -/
structure Host.Resolved (h h' : Host) : Prop where
  balanced : h'.balance = .balanced
  slots : ∀ name, h.HasSlot name → h'.HasSlot name

namespace Plan

open Machine

variable {code : Block} {types : String → Option VarType} {failed done : Label} {h : Host}
  {rungs : List Rung} {m : Machine}

/-- Once nothing is held the host is balanced. -/
theorem Holding.resolved (holding : Holding types h [] m) : h.Resolved m.host :=
  ⟨(settled_nil_iff m.host m.vars).1 holding.settled, holding.slots⟩

/-- Down the ladder everything that is held is given back. -/
theorem Holding.run_ladder (holding : Holding types h rungs m)
    (standard : ∀ r ∈ rungs, ∃ below, r.Standard types below)
    (at_ : m.ahead code = ladder rungs ++ exits failed done) :
    ∃ m', Forward code m m' ∧ m'.ahead code = [] ∧ m.host.Recounted m'.host ∧
      h.Resolved m'.host ∧
      m'.trace.toList = m.trace.toList ++ descent rungs ++ [failed.text ++ ":", done.text ++ ":"] := by
  obtain ⟨m', forward, ahead, recounted, counts, trace⟩ :=
    Plan.run_ladder standard holding.typed holding.settled
      (fun _ _ a _ => Int.natCast_nonneg (m.host.holders a)) at_
  refine ⟨m', forward, ahead, recounted, ⟨?_, fun name has => ?_⟩, trace⟩
  · apply (Host.balance_eq_balanced_iff m'.host).2
    intro a
    rw [counts a, recounted.holders]
  · obtain ⟨handle, there⟩ := holding.slots name has
    exact ⟨handle, recounted.slots ▸ there⟩

theorem Standing.standard_below {below above : List Rung}
    (standing : Standing types failed (below ++ above)) (r : Rung) (mem : r ∈ below) :
    ∃ label, r.Standard types label := by
  obtain ⟨before, after, rfl⟩ := List.append_of_mem mem
  exact ⟨_, standing.standard before r (after ++ above) (by simp)⟩

/-- From behind the body to the end, whether a box fails or not. -/
theorem Holding.run_publication (holding : Holding types h rungs m)
    (standing : Standing types failed rungs) (landings : Landings code failed done rungs)
    (slots : ∀ r ∈ rungs, h.HasSlot r.name)
    (at_ : m.ahead code =
      publication rungs ++ .goto done :: (ladder rungs ++ exits failed done)) :
    ∃ m', Forward code m m' ∧ m'.ahead code = [] ∧ h.Resolved m'.host := by
  rcases forall_or_last (fun r => r.Boxes types → m.host.boxingFails = false) rungs with
    works | ⟨below, r, above, rfl, bad, good⟩
  · obtain ⟨i, position, target⟩ := landings.done
    obtain ⟨mid, m', forward, ahead, holding', -⟩ :=
      finish_all standing slots holding works position target (by simp [exits]) at_
    exact ⟨m', forward, ahead, holding'.resolved⟩
  · obtain ⟨boxes, fails⟩ := Classical.not_imp.1 bad
    have fails : m.host.boxingFails = true := by simpa using fails
    obtain ⟨i, position, target⟩ := landings.top below (r :: above) rfl
    have none_above (s : Rung) (mem : s ∈ above) : ¬ s.Boxes types := fun boxes => by
      rw [good s mem boxes] at fails
      cases fails
    have shorter : (ladder below ++ exits failed done).length ≤
        (Stmt.goto done :: (ladder (below ++ r :: above) ++ exits failed done)).length := by
      rw [ladder_append]
      simp only [List.length_append, List.length_cons]
      omega
    obtain ⟨mid, m', old, forward, ahead, holding', -⟩ := finish_until_refused standing slots
      holding boxes fails none_above position target shorter at_
    obtain ⟨m'', forward', ahead', -, resolved, -⟩ :=
      holding'.run_ladder standing.standard_below ahead
    exact ⟨m'', forward.trans forward', ahead', resolved⟩

/-- From the start to the first statement of the body, where all slots can be read. -/
theorem run_to_body {body rest : Block} (standing : Standing types failed rungs)
    (laid : code = declarations rungs ++ (extraction rungs ++ (.comment "body" :: (body ++ rest))))
    (balanced : h.balance = .balanced) (slots : ∀ r ∈ rungs, h.HasSlot r.name)
    (readable : ∀ r ∈ rungs, r.Readable types h) :
    ∃ m, Forward code (Machine.start h) m ∧ m.ahead code = body ++ rest ∧ Extracted types h rungs m ∧
      m.trace.toList = (rungs.map fun r => "extract " ++ r.name) ++ ["body"] := by
  have whole : rungs = rungs ++ [] := (List.append_nil rungs).symm
  rw [whole] at standing laid
  obtain ⟨m, forward, ahead, extracted, trace⟩ := run_extraction (h := h) standing
    (fun r mem => Host.slotUsable_of_balanced balanced (slots r mem)) readable laid
  obtain ⟨note, ahead⟩ := Forward.one ahead (step_comment "body") rfl
  refine ⟨_, forward.trans note, ahead, ?_, by simp [trace]⟩
  exact ⟨extracted.typed, extracted.ledger, extracted.recounted, extracted.read⟩

/-- Where all slots can be read the run goes through the body, and on from there or from an
edit that leaves. -/
theorem run_edited {edits : List Edit} (standing : Standing types failed rungs)
    (landings : Landings code failed done rungs)
    (laid : code =
      layout failed done rungs (edits.flatMap (Edit.code (top failed rungs))))
    (balanced : h.balance = .balanced) (slots : ∀ r ∈ rungs, h.HasSlot r.name)
    (readable : ∀ r ∈ rungs, r.Readable types h) (fits : ∀ e ∈ edits, e.Fits types) :
    ∃ m, Forward code (Machine.start h) m ∧ m.ahead code = [] ∧ h.Resolved m.host := by
  obtain ⟨m, forward, ahead, extracted, -⟩ :=
    run_to_body standing (laid.trans (layout_eq ..)) balanced slots readable
  obtain ⟨i, position, target⟩ := landings.top rungs [] (List.append_nil rungs).symm
  have shorter : (ladder rungs ++ exits failed done).length ≤
      (publication rungs ++ .goto done :: (ladder rungs ++ exits failed done)).length := by
    simp only [List.length_append, List.length_cons]
    omega
  obtain ⟨m', edit, holding, outcome⟩ :=
    run_edits standing (extracted.holding balanced) fits position target shorter ahead
  rcases outcome with ahead' | left
  · obtain ⟨m'', publish, ahead'', resolved⟩ :=
      holding.run_publication standing landings slots ahead'
    exact ⟨m'', forward.trans (edit.trans publish), ahead'', resolved⟩
  · have whole : Standing types failed (rungs ++ []) := by rwa [List.append_nil]
    obtain ⟨m'', unwind, ahead'', -, resolved, -⟩ :=
      holding.run_ladder whole.standard_below left
    exact ⟨m'', forward.trans (edit.trans unwind), ahead'', resolved⟩

/-- A slot that is there but gives nothing belongs to a scalar. -/
theorem scalar_of_unreadable {r : Rung} (slot : h.HasSlot r.name) (bad : ¬ r.Readable types h) :
    ∃ type, types r.name = some (.scalar type) ∧ h.reading r.name (.scalar type) = none := by
  obtain ⟨handle, there⟩ := slot
  obtain ⟨type, bad⟩ := Classical.not_forall.1 bad
  obtain ⟨declared, missing⟩ := Classical.not_imp.1 bad
  have missing := Classical.not_not.1 missing
  cases type with
  | handle =>
    rw [Host.reading, there] at missing
    cases missing
  | scalar type => exact ⟨type, declared, missing⟩

/-- Whatever a run of the region meets, a balanced host is balanced afterwards. -/
theorem run_balanced {abi : Abi} {p : Plan} {edits : List Edit} {region : Region}
    (grown : Plan.Grown abi p) (builtIn : ∀ e ∈ p.entries, e.node.IsBuiltIn)
    (fits : ∀ e ∈ edits, e.Fits p.typeOf?)
    (built : p.build (fun fail => edits.flatMap (Edit.code fail)) = .ok region)
    (slots : ∀ e ∈ p.entries, h.HasSlot e.binding.text) (balanced : h.balance = .balanced) :
    ∃ trace h', h.RunsTo region.code region.code.length trace h' ∧ h.Resolved h' := by
  obtain ⟨rungs, -, assembly⟩ := assembly_of_build built
  have standing := assembly.standing grown.nodup builtIn
  have landings := assembly.landings
  have slots' (r : Rung) (mem : r ∈ rungs) : h.HasSlot r.name := by
    obtain ⟨e, there, same, -⟩ := entry_of_rung assembly.raised mem
    exact same ▸ slots e there
  rcases forall_or_first (fun r => r.Readable p.typeOf? h) rungs with
    readable | ⟨below, r, above, rfl, good, bad⟩
  · obtain ⟨m, forward, ahead, resolved⟩ :=
      run_edited standing landings assembly.code balanced slots' readable fits
    exact ⟨m.trace, m.host, Host.runsTo_of_forward forward ahead, resolved⟩
  · obtain ⟨type, declared, missing⟩ := scalar_of_unreadable (slots' r (by simp)) bad
    obtain ⟨i, position, target⟩ := landings.top (below ++ [r]) above (by simp)
    rw [top_snoc] at position
    obtain ⟨n, m, steps, ahead, bound, host, -⟩ := run_refused standing
      (fun s mem => Host.slotUsable_of_balanced balanced
        (slots' s (by rw [List.append_cons]; exact List.mem_append_left _ mem)))
      good declared missing assembly.code position target
    refine ⟨m.trace, m.host, Host.runsTo_of_steps steps (halted_iff_ahead.2 ahead) (by omega), ?_⟩
    rw [host]
    refine ⟨(Host.balance_eq_balanced_iff _).2 fun a => ?_, fun name has => has⟩
    rw [Host.count_report, Host.holders_report]
    exact (Host.balance_eq_balanced_iff h).1 balanced a

end Plan

/-! ## Runs one after another -/

/-- A region to be run: what it was built from, and whether boxing fails meanwhile. -/
structure Job where
  abi : Abi
  plan : Plan
  edits : List Edit
  region : Region
  boxingFails : Bool

/-- The region comes from built-in values and edits of them, and each of its bindings has a
slot in the host. -/
structure Job.Admitted (h : Host) (j : Job) : Prop where
  grown : Plan.Grown j.abi j.plan
  builtIn : ∀ e ∈ j.plan.entries, e.node.IsBuiltIn
  fits : ∀ e ∈ j.edits, e.Fits j.plan.typeOf?
  built : j.plan.build (fun fail => j.edits.flatMap (Edit.code fail)) = .ok j.region
  slots : ∀ e ∈ j.plan.entries, h.HasSlot e.binding.text

theorem Job.Admitted.mono {h h' : Host} {j : Job} (admitted : j.Admitted h)
    (slots : ∀ name, h.HasSlot name → h'.HasSlot name) : j.Admitted h' :=
  ⟨admitted.grown, admitted.builtIn, admitted.fits, admitted.built,
    fun e mem => slots _ (admitted.slots e mem)⟩

/-- Runs the regions one after another: the host after each of them, or the first fault. -/
def Host.runAll (h : Host) : List Job → Except Fault (List Host)
  | [] => .ok []
  | j :: rest =>
    match Host.run { h with boxingFails := j.boxingFails } j.region.code with
    | (.ok _, h') => do
      let later ← h'.runAll rest
      .ok (h' :: later)
    | (.error fault, _) => .error fault

theorem Host.balance_boxingFails {h : Host} {fails : Bool} (balanced : h.balance = .balanced) :
    Host.balance { h with boxingFails := fails } = .balanced :=
  (balance_eq_balanced_iff _).2 ((balance_eq_balanced_iff h).1 balanced)

/-- Every run ends, and the host is balanced after each of them; only a region with more
statements than the limit on steps admits could be cut short. -/
theorem Host.runAll_balanced {h : Host} {jobs : List Job} (balanced : h.balance = .balanced)
    (admitted : ∀ j ∈ jobs, j.Admitted h) :
    (∃ hosts, h.runAll jobs = .ok hosts ∧ hosts.length = jobs.length ∧
      ∀ h' ∈ hosts, h'.balance = .balanced) ∨
    (h.runAll jobs = .error .stepLimit ∧ ∃ j ∈ jobs, stepLimit < j.region.code.length) := by
  induction jobs generalizing h with
  | nil => exact .inl ⟨[], rfl, rfl, fun h' mem => absurd mem List.not_mem_nil⟩
  | cons j jobs ih =>
    have here := admitted j (List.mem_cons_self ..)
    obtain ⟨trace, h', runs, resolved⟩ := Plan.run_balanced
      (h := { h with boxingFails := j.boxingFails }) here.grown here.builtIn here.fits here.built
      here.slots (balance_boxingFails balanced)
    rcases runs with run | ⟨short, run⟩
    · have later := ih resolved.balanced fun k mem =>
        (admitted k (List.mem_cons_of_mem _ mem)).mono resolved.slots
      rcases later with ⟨hosts, run', length, all⟩ | ⟨run', k, mem, long⟩
      · refine .inl ⟨h' :: hosts, ?_, by simp [length],
          List.forall_mem_cons.2 ⟨resolved.balanced, all⟩⟩
        rw [runAll, run]
        simp only [run']
        rfl
      · refine .inr ⟨?_, k, List.mem_cons_of_mem _ mem, long⟩
        rw [runAll, run]
        simp only [run']
        rfl
    · refine .inr ⟨?_, j, List.mem_cons_self .., short⟩
      rw [runAll]
      generalize Host.run { h with boxingFails := j.boxingFails } j.region.code = result at run
      obtain ⟨outcome, left⟩ := result
      cases run
      rfl

/-- Edits for `Plan.handleAndCounter` that leave if the handle is null or holds no integer. -/
def integerEdits : List Edit :=
  [.change (.store "n" (.int 5)), .leaveIfNull "a", .unbox "u" "a" .int64]

/-- The same region twice, and the second time boxing fails. -/
theorem sharedInteger_runAll_balanced :
    ∃ region hosts,
      Plan.handleAndCounter.build (fun fail => integerEdits.flatMap (Edit.code fail)) = .ok region ∧
      sharedInteger.runAll
        [⟨.standard, Plan.handleAndCounter, integerEdits, region, false⟩,
          ⟨.standard, Plan.handleAndCounter, integerEdits, region, true⟩] = .ok hosts ∧
      hosts.length = 2 ∧ ∀ h' ∈ hosts, h'.balance = .balanced := by
  obtain ⟨region, built, short⟩ : ∃ region,
      Plan.handleAndCounter.build (fun fail => integerEdits.flatMap (Edit.code fail)) = .ok region ∧
        region.code.length ≤ stepLimit := ⟨_, rfl, by decide⟩
  have admitted (fails : Bool) : Job.Admitted sharedInteger
      ⟨.standard, Plan.handleAndCounter, integerEdits, region, fails⟩ := by
    refine ⟨Plan.handleAndCounter_grown, Plan.handleAndCounter_builtIn, ?_, built, ?_⟩
    · simp only [integerEdits, List.forall_mem_cons]
      exact ⟨rfl, rfl, ⟨rfl, rfl⟩, by simp⟩
    · simp only [Plan.handleAndCounter, List.forall_mem_cons]
      exact ⟨⟨_, rfl⟩, ⟨_, rfl⟩, by simp⟩
  have both := List.forall_mem_cons.2
    ⟨admitted false, List.forall_mem_cons.2 ⟨admitted true, List.forall_mem_nil _⟩⟩
  rcases Host.runAll_balanced rfl both with ⟨hosts, run, length, balanced⟩ | ⟨-, j, mem, long⟩
  · exact ⟨region, hosts, built, run, length, balanced⟩
  · have same : j.region = region := by
      simp only [List.mem_cons, List.not_mem_nil, or_false] at mem
      rcases mem with rfl | rfl <;> rfl
    rw [same] at long
    omega

end HostBridge
