import HostBridge.Proofs.Region.Balance

/-!
# Regions and their contents

What a region around a sequence of changes does to the host, where all slots can be read
and boxing works, is what the changes do to the contents that the slots give: published
slots show the final contents, all other slots and all objects there were stay
(`Plan.Published`). A body that leaves at its end undoes everything (`Plan.Undone`).
-/

namespace HostBridge

namespace Contents

theorem size_apply (c : Contents) (change : Change) : c.values.size ≤ (c.apply change).values.size := by
  cases change with
  | store var value => exact Nat.le_refl _
  | share dst src => exact Nat.le_refl _
  | box dst temp value =>
    rw [apply, Array.size_push]
    omega
  | clear dst => exact Nat.le_refl _

theorem values_apply (c : Contents) (change : Change) {a : Address} (inside : a < c.values.size) :
    (c.apply change).values[a]? = c.values[a]? := by
  cases change with
  | store var value => rfl
  | share dst src => rfl
  | box dst temp value =>
    rw [apply, Array.getElem?_push, if_neg (Nat.ne_of_lt inside)]
  | clear dst => rfl

/-- Objects are added at the end, and keep their values. -/
theorem values_foldl (changes : List Change) (c : Contents) {a : Address} (inside : a < c.values.size) :
    a < (changes.foldl apply c).values.size ∧
      (changes.foldl apply c).values[a]? = c.values[a]? := by
  induction changes generalizing c with
  | nil => exact ⟨inside, rfl⟩
  | cons change changes ih =>
    obtain ⟨inside', same⟩ := ih (c.apply change) (Nat.lt_of_lt_of_le inside (c.size_apply change))
    exact ⟨inside', same.trans (c.values_apply change inside)⟩

/-- The objects of the host that a run began with keep their values. -/
theorem values_foldl_start (changes : List Change) {h : Host} {types : String → Option VarType}
    {a : Address} (inside : a < h.objects.size) :
    a < (changes.foldl apply (start h types)).values.size ∧
      (changes.foldl apply (start h types)).values[a]? = h.value? a := by
  have start_size : a < (start h types).values.size := by rwa [start, Array.size_map]
  obtain ⟨inside', same⟩ := values_foldl changes _ start_size
  refine ⟨inside', ?_⟩
  rw [same, start, Array.getElem?_map]
  rfl

end Contents

/-- What extraction gives is shown behind it. -/
theorem Plan.Extracted.shown {types : String → Option VarType} {failed : Label} {h : Host}
    {rungs : List Plan.Rung} {m : Machine} (extracted : Plan.Extracted types h rungs m)
    (standing : Plan.Standing types failed rungs) : (Contents.start h types).Shown types m where
  entries := by
    intro name type declared
    obtain ⟨r, mem, rfl⟩ := standing.covers name type declared
    show m.vars.get? r.name = (types r.name).bind (h.reading r.name)
    rw [declared]
    exact extracted.read r mem type declared
  values := by
    intro a
    rw [extracted.recounted.values, Contents.start, Array.getElem?_map]
    rfl

namespace Plan

open Machine

/-- The published slots of `h'` show the contents `c`; no other slot has changed since `h`. -/
structure Published (p : Plan) (h : Host) (c : Contents) (h' : Host) : Prop where
  synced : ∀ e ∈ p.entries, e.terminal = .sync → ∃ content, c.entries e.binding.text = some content ∧
    content.type = e.varType ∧ h'.Publishes e.binding.text c.values.size content
  others : ∀ name, (∀ e ∈ p.entries, e.terminal = .sync → e.binding.text ≠ name) →
    h'.slots.get? name = h.slots.get? name
  values : ∀ a, a < c.values.size → h'.value? a = c.values[a]?

/-- The slots and all counts are as they were, so that objects made meanwhile are freed. -/
structure Undone (h h' : Host) : Prop where
  slots : h'.slots = h.slots
  counts : ∀ a, h'.count a = h.count a

/-- What a run passes between the body and the end, unless a box fails. -/
def finishTrace (stem : String) (entries : List Entry) : List String :=
  (entries.reverse.map fun e => e.terminal.action ++ " " ++ e.binding.text) ++ [stem ++ "_done:"]

section Rungs

variable {code : Block} {types : String → Option VarType} {failed done : Label} {h : Host}
  {rungs : List Rung} {changes : List Change}

/-- Through the body: the final contents are shown. -/
theorem run_through_changes {rest : Block} (standing : Standing types failed rungs)
    (laid : code = declarations rungs ++
      (extraction rungs ++ (.comment "body" :: (changes.flatMap Change.code ++ rest))))
    (balanced : h.balance = .balanced) (slots : ∀ r ∈ rungs, h.HasSlot r.name)
    (readable : ∀ r ∈ rungs, r.Readable types h) (fits : ∀ c ∈ changes, c.Fits types)
    (works : ∀ c ∈ changes, c.Works h.boxingFails) :
    ∃ m, Forward code (Machine.start h) m ∧ m.ahead code = rest ∧ Holding types h rungs m ∧
      (changes.foldl Contents.apply (Contents.start h types)).Shown types m ∧
      m.host.slots = h.slots ∧ m.host.reports = h.reports ∧ m.host.boxingFails = h.boxingFails ∧
      m.trace.toList = (rungs.map fun r => "extract " ++ r.name) ++ ["body"] := by
  obtain ⟨m, forward, ahead, extracted, trace⟩ := run_to_body standing laid balanced slots readable
  have flag : m.host.boxingFails = h.boxingFails := extracted.recounted.boxingFails
  obtain ⟨m', change, ahead', holding, silent, shown, reports⟩ := run_changes standing
    (extracted.holding balanced) fits (flag ▸ works) ahead (extracted.shown standing)
  exact ⟨m', forward.trans change, ahead', holding, shown,
    silent.slots.trans extracted.recounted.slots, reports.trans extracted.recounted.reports,
    silent.boxingFails.trans flag, by rw [silent.trace, trace]⟩

/-- What is published is what the contents say. -/
theorem Finished.synced {c : Contents} {m m' : Machine} (finished : Finished rungs m m')
    (holding : Holding types h rungs m) (shown : c.Shown types m) {r : Rung} (mem : r ∈ rungs)
    {type : VarType} (declared : types r.name = some type) (sync : r.fragment.terminal = .sync) :
    ∃ content, c.entries r.name = some content ∧ content.type = type ∧
      m'.host.Publishes r.name c.values.size content := by
  obtain ⟨content, there, published⟩ := finished.published r mem sync
  obtain ⟨content', there', fits⟩ := holding.typed r.name type declared
  cases there.symm.trans there'
  refine ⟨content, ?_, fits, ?_⟩
  · rw [← shown.entries r.name type declared, there]
  · rwa [← shown.size]

/-- Behind a body of changes all rungs are finished. -/
theorem run_changes_to_end (standing : Standing types failed rungs)
    (landings : Landings code failed done rungs)
    (laid : code = layout failed done rungs (changes.flatMap Change.code))
    (balanced : h.balance = .balanced) (slots : ∀ r ∈ rungs, h.HasSlot r.name)
    (readable : ∀ r ∈ rungs, r.Readable types h) (fits : ∀ c ∈ changes, c.Fits types)
    (works : h.boxingFails = false) {c : Contents}
    (final : changes.foldl Contents.apply (Contents.start h types) = c) :
    ∃ m, Forward code (Machine.start h) m ∧ m.ahead code = [] ∧ h.Resolved m.host ∧
      m.host.reports = h.reports ∧ (∀ a, a < c.values.size → m.host.value? a = c.values[a]?) ∧
      (∀ r ∈ rungs, ∀ type, types r.name = some type → r.fragment.terminal = .sync →
        ∃ content, c.entries r.name = some content ∧ content.type = type ∧
          m.host.Publishes r.name c.values.size content) ∧
      (∀ name, (∀ r ∈ rungs, r.fragment.terminal = .sync → r.name ≠ name) →
        m.host.slots.get? name = h.slots.get? name) ∧
      m.trace.toList = (rungs.map fun r => "extract " ++ r.name) ++ ["body"] ++
        (rungs.reverse.map fun r => r.fragment.terminal.action ++ " " ++ r.name) ++
        [done.text ++ ":"] := by
  obtain ⟨m, forward, ahead, holding, shown, slots_eq, reports, flag, trace⟩ :=
    run_through_changes standing (laid.trans (layout_eq ..)) balanced slots readable fits
      fun c _ => works ▸ c.works_of_boxing
  rw [final] at shown
  obtain ⟨i, position, target⟩ := landings.done
  obtain ⟨mid, m', finish, ahead', holding', finished, host, trace'⟩ :=
    finish_all standing slots holding (fun _ _ _ => flag.trans works) position target
      (by simp [exits]) ahead
  refine ⟨m', forward.trans finish, ahead', holding'.resolved, ?_, ?_, ?_, ?_, ?_⟩
  · rw [host, finished.reports, reports]
  · intro a inside
    rw [host, finished.values a (shown.size.symm ▸ inside), shown.values]
  · intro r mem type declared sync
    rw [host]
    exact finished.synced holding shown mem declared sync
  · intro name other
    rw [host, finished.kept name other, slots_eq]
  · rw [trace', Array.toList_push, finished.trace, trace]

/-- Behind a body that leaves at its end everything is undone. -/
theorem run_changes_and_leave (standing : Standing types failed rungs)
    (landings : Landings code failed done rungs)
    (laid : code =
      layout failed done rungs (changes.flatMap Change.code ++ [.goto (top failed rungs)]))
    (balanced : h.balance = .balanced) (slots : ∀ r ∈ rungs, h.HasSlot r.name)
    (readable : ∀ r ∈ rungs, r.Readable types h) (fits : ∀ c ∈ changes, c.Fits types)
    (works : h.boxingFails = false) :
    ∃ m, Forward code (Machine.start h) m ∧ m.ahead code = [] ∧ h.Resolved m.host ∧
      m.host.reports = h.reports ∧ Undone h m.host ∧
      (∀ a, a < h.objects.size → m.host.value? a = h.value? a) ∧
      m.trace.toList = (rungs.map fun r => "extract " ++ r.name) ++ ["body"] ++
        descent rungs ++ [failed.text ++ ":", done.text ++ ":"] := by
  rw [layout_eq, List.append_assoc (changes.flatMap Change.code)] at laid
  obtain ⟨m, forward, ahead, holding, shown, slots_eq, reports, -, trace⟩ :=
    run_through_changes standing laid balanced slots readable fits
      fun c _ => works ▸ c.works_of_boxing
  obtain ⟨i, position, target⟩ := landings.top rungs [] (List.append_nil rungs).symm
  have shorter : (code.drop i).length ≤
      (publication rungs ++ .goto done :: (ladder rungs ++ exits failed done)).length := by
    rw [target]
    simp only [List.length_append, List.length_cons]
    omega
  have jump := Forward.jump ahead (step_goto position) shorter
  have left : Holding types h rungs { m with next := i } :=
    ⟨holding.typed, holding.settled, holding.slots⟩
  have whole : Standing types failed (rungs ++ []) := by rwa [List.append_nil]
  obtain ⟨m', unwind, ahead', recounted, resolved, trace'⟩ :=
    left.run_ladder whole.standard_below target
  have slots' : m'.host.slots = h.slots := recounted.slots.trans slots_eq
  refine ⟨m', forward.trans (jump.trans unwind), ahead', resolved, ?_, ⟨slots', fun a => ?_⟩, ?_, ?_⟩
  · rw [recounted.reports, reports]
  · rw [(Host.balance_eq_balanced_iff _).1 resolved.balanced, Host.holders_eq, slots',
      ← Host.holders_eq, (Host.balance_eq_balanced_iff h).1 balanced]
  · intro a inside
    rw [recounted.values]
    show m.host.value? a = h.value? a
    rw [shown.values, (Contents.values_foldl_start changes inside).2]
  · rw [trace', trace]

end Rungs

theorem finishTrace_eq {stem : String} {index : Nat} {below : Label} {entries : List Entry}
    {rungs : List Rung} (ok : rungsFrom stem index below entries = .ok rungs) :
    (rungs.reverse.map fun r => r.fragment.terminal.action ++ " " ++ r.name) =
      entries.reverse.map fun e => e.terminal.action ++ " " ++ e.binding.text := by
  have := congrArg (List.map fun b => b.2.action ++ " " ++ b.1.text) (terminals_rungsFrom ok)
  rw [List.map_map, List.map_map] at this
  rw [List.map_reverse, List.map_reverse]
  exact congrArg List.reverse this

/-- The body that makes the changes and, if it is to, leaves at its end. -/
def bodyOf (changes : List Change) (leaves : Bool) (fail : Label) : Block :=
  changes.flatMap Change.code ++ if leaves then [.goto fail] else []

/-- A region refines the changes of its body: run on contents, they say what a run of the region
leaves in the host. If the body leaves at its end, nothing of them is left. -/
theorem run_refines {abi : Abi} {p : Plan} {changes : List Change} {leaves : Bool} {region : Region}
    {h : Host} (grown : Plan.Grown abi p) (builtIn : ∀ e ∈ p.entries, e.node.IsBuiltIn)
    (fits : ∀ c ∈ changes, c.Fits p.typeOf?)
    (built : p.build (bodyOf changes leaves) = .ok region)
    (balanced : h.balance = .balanced) (works : h.boxingFails = false)
    (slots : ∀ e ∈ p.entries, h.HasSlot e.binding.text)
    (readable : ∀ e ∈ p.entries, h.reading e.binding.text e.varType ≠ none) :
    ∃ trace h', h.RunsTo region.code region.code.length trace h' ∧ h'.balance = .balanced ∧
      h'.reports = h.reports ∧ (∀ a, a < h.objects.size → h'.value? a = h.value? a) ∧
      if leaves then
        Undone h h' ∧ trace.toList =
          extractTrace p.entries ++ ["body"] ++ ladderTrace p.stem p.entries
      else
        p.Published h (changes.foldl Contents.apply (Contents.start h p.typeOf?)) h' ∧
          trace.toList = extractTrace p.entries ++ ["body"] ++ finishTrace p.stem p.entries := by
  obtain ⟨rungs, -, assembly⟩ := assembly_of_build built
  have standing := assembly.standing grown.nodup builtIn
  have slots' (r : Rung) (mem : r ∈ rungs) : h.HasSlot r.name := by
    obtain ⟨e, there, same, -⟩ := entry_of_rung assembly.raised mem
    exact same ▸ slots e there
  have readable' (r : Rung) (mem : r ∈ rungs) : r.Readable p.typeOf? h := by
    obtain ⟨e, there, same, -⟩ := entry_of_rung assembly.raised mem
    exact readable_of_entry grown.nodup there same (readable e there)
  have extracts := extractTrace_eq assembly.raised
  cases leaves with
  | true =>
    obtain ⟨m, forward, ahead, resolved, reports, undone, values, trace⟩ := run_changes_and_leave
      standing assembly.landings assembly.code balanced slots' readable' fits works
    refine ⟨m.trace, m.host, Host.runsTo_of_forward forward ahead, resolved.balanced, reports,
      values, ?_⟩
    rw [if_pos rfl]
    refine ⟨undone, ?_⟩
    rw [trace, List.append_assoc _ (descent rungs), ladderTrace_eq assembly assembly.raised, extracts]
  | false =>
    have laid := assembly.code
    rw [bodyOf, if_neg Bool.false_ne_true, List.append_nil] at laid
    obtain ⟨m, forward, ahead, resolved, reports, values, synced, others, trace⟩ := run_changes_to_end
      standing assembly.landings laid balanced slots' readable' fits works rfl
    refine ⟨m.trace, m.host, Host.runsTo_of_forward forward ahead, resolved.balanced, reports, ?_, ?_⟩
    · intro a inside
      have start_size : a < (Contents.start h p.typeOf?).values.size := by
        rwa [Contents.start, Array.size_map]
      obtain ⟨inside', same⟩ := Contents.values_foldl changes _ start_size
      rw [values a inside', same, Contents.start, Array.getElem?_map]
      rfl
    · rw [if_neg Bool.false_ne_true]
      refine ⟨⟨?_, ?_, values⟩, ?_⟩
      · intro e mem sync
        obtain ⟨r, there, same, terminal⟩ := rung_of_entry assembly.raised mem
        have declared := typeOf?_of_mem grown.nodup mem
        rw [← same] at declared ⊢
        exact synced r there _ declared (terminal.trans sync)
      · intro name other
        apply others name
        intro r mem sync
        obtain ⟨e, there, same, terminal⟩ := entry_of_rung assembly.raised mem
        rw [same]
        exact other e there (terminal.symm.trans sync)
      · have done_text : region.done.text ++ ":" = p.stem ++ "_done:" := by
          rw [assembly.done_text, String.append_assoc]
          rfl
        rw [trace, extracts, finishTrace_eq assembly.raised, done_text, finishTrace,
          ← List.append_assoc]

/-- Publishing a new integer under `a` and another one under `n`: both slots gave up the old one. -/
theorem sharedInteger_run_refines :
    ∃ region trace h', handleAndCounter.build
        (bodyOf [.store "n" (.int 5), .box "a" "t" (.int 9)] false) = .ok region ∧
      sharedInteger.run region.code = (.ok trace, h') ∧ h'.slots.get? "a" = some (some 1) ∧
      h'.value? 1 = some (.scalar (.int 9)) ∧ h'.value? 0 = some (.scalar (.int 3)) ∧
      h'.balance = .balanced := by
  obtain ⟨region, built, short⟩ : ∃ region, handleAndCounter.build
      (bodyOf [.store "n" (.int 5), .box "a" "t" (.int 9)] false) = .ok region ∧
        region.code.length ≤ stepLimit := ⟨_, rfl, by decide⟩
  have fits : ∀ c ∈ [Change.store "n" (.int 5), .box "a" "t" (.int 9)],
      c.Fits handleAndCounter.typeOf? := by
    simp only [List.forall_mem_cons]
    exact ⟨rfl, ⟨rfl, rfl⟩, by simp⟩
  have slots : ∀ e ∈ handleAndCounter.entries, sharedInteger.HasSlot e.binding.text := by
    simp only [handleAndCounter, List.forall_mem_cons]
    exact ⟨⟨_, rfl⟩, ⟨_, rfl⟩, by simp⟩
  have readable : ∀ e ∈ handleAndCounter.entries,
      sharedInteger.reading e.binding.text e.varType ≠ none := by
    simp only [handleAndCounter, List.forall_mem_cons]
    exact ⟨by decide, by decide, by simp⟩
  obtain ⟨trace, h', runs, balanced, -, old, outcome⟩ := run_refines handleAndCounter_grown
    handleAndCounter_builtIn fits built rfl rfl slots readable
  rw [if_neg Bool.false_ne_true] at outcome
  obtain ⟨⟨synced, -, values⟩, -⟩ := outcome
  have final : ([Change.store "n" (.int 5), .box "a" "t" (.int 9)].foldl Contents.apply
      (.start sharedInteger handleAndCounter.typeOf?)).values =
        #[.scalar (.int 3), .scalar (.int 9)] := by
    simp [Contents.start, Contents.apply, Contents.set, sharedInteger]
  obtain ⟨content, there, -, published⟩ := synced _ (List.mem_cons_self ..) rfl
  have content_eq : content = .handle (some 1) := by
    simpa [Contents.start, Contents.apply, Contents.set, sharedInteger] using there.symm
  rw [content_eq] at published
  rw [final] at values
  exact ⟨region, trace, h', built, runs.run_eq short, published, values 1 (by decide),
    old 0 (by decide), balanced⟩

end Plan
end HostBridge
