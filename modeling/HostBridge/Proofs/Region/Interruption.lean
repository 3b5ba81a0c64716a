import HostBridge.Proofs.Region.Refinement
import HostBridge.Proofs.Region.Terminals

/-!
# Publication that is interrupted

Where boxing fails, publication stops at the last scalar that is to be published. The
bindings behind it have been published by then, the scalar's slot is null, and the bindings
before it are given up on the ladder, so that their slots stay as they were
(`Plan.run_interrupted`).
-/

namespace HostBridge.Plan

open Machine

/-- What is left where the sync of `bad` fails: the entries of `after` were finished before it
with the contents `c`, and nothing else has changed since `h`. -/
structure Interrupted (h : Host) (c : Contents) (bad : Entry) (after : List Entry) (h' : Host) :
    Prop where
  balanced : h'.balance = .balanced
  cleared : h'.slots.get? bad.binding.text = some none
  published : ∀ e ∈ after, e.terminal = .sync → ∃ handle,
    c.entries e.binding.text = some (.handle handle) ∧
      h'.slots.get? e.binding.text = some handle
  others : ∀ name, (∀ e ∈ bad :: after, e.terminal = .sync → e.binding.text ≠ name) →
    h'.slots.get? name = h.slots.get? name
  values : ∀ a, a < h.objects.size → h'.value? a = h.value? a
  reports : h'.reports = h.reports.push (bad.binding.text ++ ": box failed")

/-- A run of `code` comes to the end of `body` with these contents of its variables. -/
def ShowsBehind (h : Host) (code body : Block) (types : String → Option VarType) (c : Contents) :
    Prop :=
  ∃ front back n m, code = front ++ .comment "body" :: (body ++ back) ∧
    Steps code n (Machine.start h) m ∧ m.ahead code = back ∧ c.Shown types m

/-- What a run passes while these entries are finished. -/
def actionTrace (entries : List Entry) : List String :=
  entries.reverse.map fun e => e.terminal.action ++ " " ++ e.binding.text

theorem mem_ladderTrace {stem : String} {entries : List Entry} {e : Entry} (mem : e ∈ entries) :
    "cleanup " ++ e.binding.text ∈ ladderTrace stem entries := by
  obtain ⟨j, there⟩ := List.getElem?_of_mem mem
  apply List.mem_append_left
  refine List.mem_flatMap.2 ⟨(e, j), ?_, by simp⟩
  rw [List.mem_reverse]
  exact List.mem_zipIdx_iff_getElem?.2 there

/-! ## Texts of marks -/

theorem texts_extractMarks (rungs : List Rung) :
    (extractMarks rungs).map Mark.text = rungs.map fun r => "extract " ++ r.name := by
  rw [extractMarks, List.map_map]
  rfl

theorem texts_finishMarks (rungs : List Rung) : (finishMarks rungs).map Mark.text =
    rungs.reverse.map fun r => r.fragment.terminal.action ++ " " ++ r.name := by
  rw [finishMarks, List.map_map]
  rfl

theorem texts_ladderMarks (failed done : Label) (rungs : List Rung) :
    (ladderMarks failed done rungs).map Mark.text =
      descent rungs ++ [failed.text ++ ":", done.text ++ ":"] := by
  rw [ladderMarks, List.map_append, descentMarks, List.map_flatMap]
  rfl

/-- From the extractions to the end, by way of the ladder below some of the rungs. -/
theorem texts_left (failed done : Label) (rungs below above : List Rung) :
    (extractMarks rungs ++ .body :: (finishMarks above ++ ladderMarks failed done below)).map
        Mark.text =
      (rungs.map fun r => "extract " ++ r.name) ++ ["body"] ++
        (above.reverse.map fun r => r.fragment.terminal.action ++ " " ++ r.name) ++
        (descent below ++ [failed.text ++ ":", done.text ++ ":"]) := by
  rw [List.map_append, List.map_cons, List.map_append, texts_extractMarks, texts_finishMarks,
    texts_ladderMarks]
  simp [Mark.text]

/-! ## Rungs -/

section Rungs

variable {code : Block} {types : String → Option VarType} {failed done : Label} {h : Host}
  {below above : List Rung} {r : Rung} {changes : List Change}

/-- What has been published is a handle where no rung makes a new object. -/
theorem Finished.handle {c : Contents} {m m' : Machine} {rungs : List Rung}
    (finished : Finished above m m') (holding : Holding types h rungs m) (shown : c.Shown types m)
    {s : Rung} (mem : s ∈ above) (sync : s.fragment.terminal = .sync) (boxless : ¬ s.Boxes types)
    {type : VarType} (declared : types s.name = some type) :
    ∃ handle, c.entries s.name = some (.handle handle) ∧
      m'.host.slots.get? s.name = some handle := by
  obtain ⟨content, there, published⟩ := finished.published s mem sync
  obtain ⟨content', there', fits⟩ := holding.typed s.name type declared
  cases there.symm.trans there'
  cases content with
  | handle handle =>
    refine ⟨handle, ?_, published⟩
    rw [← shown.entries s.name type declared, there]
  | scalar value =>
    subst fits
    exact absurd ⟨sync, _, declared⟩ boxless

/-- Behind a body of changes the rungs above are finished, and a failing box leads down the ladder
below. The box has cleared its slot; the ladder leaves slots and values alone. -/
theorem run_changes_until_refused (standing : Standing types failed (below ++ r :: above))
    (landings : Landings code failed done (below ++ r :: above))
    (laid : code = layout failed done (below ++ r :: above) (changes.flatMap Change.code))
    (balanced : h.balance = .balanced) (slots : ∀ s ∈ below ++ r :: above, h.HasSlot s.name)
    (readable : ∀ s ∈ below ++ r :: above, s.Readable types h)
    (fits : ∀ c ∈ changes, c.Fits types) (works : ∀ c ∈ changes, c.Works h.boxingFails)
    (boxes : r.Boxes types) (fails : h.boxingFails = true)
    (none_above : ∀ s ∈ above, ¬ s.Boxes types) {c : Contents}
    (final : changes.foldl Contents.apply (Contents.start h types) = c) :
    ∃ m, Forward code (Machine.start h) m ∧ m.ahead code = [] ∧
      ShowsBehind h code (changes.flatMap Change.code) types c ∧ m.host.balance = .balanced ∧
      m.host.slots.get? r.name = some none ∧
      (∀ s ∈ above, s.fragment.terminal = .sync → ∀ type, types s.name = some type →
        ∃ handle, c.entries s.name = some (.handle handle) ∧
          m.host.slots.get? s.name = some handle) ∧
      (∀ name, (∀ s ∈ r :: above, s.fragment.terminal = .sync → s.name ≠ name) →
        m.host.slots.get? name = h.slots.get? name) ∧
      (∀ a, a < c.values.size → m.host.value? a = c.values[a]?) ∧
      m.host.reports = h.reports.push (r.name ++ ": box failed") ∧
      m.trace.toList = (extractMarks (below ++ r :: above) ++
        .body :: (finishMarks (r :: above) ++ ladderMarks failed done below)).map Mark.text := by
  obtain ⟨m, forward, ahead, holding, shown, slots_eq, reports, flag, trace⟩ :=
    run_through_changes standing (laid.trans (layout_eq ..)) balanced slots readable fits works
  rw [final] at shown
  obtain ⟨i, position, target⟩ := landings.top below (r :: above) rfl
  have shorter : (ladder below ++ exits failed done).length ≤
      (Stmt.goto done :: (ladder (below ++ r :: above) ++ exits failed done)).length := by
    rw [ladder_append]
    simp only [List.length_append, List.length_cons]
    omega
  obtain ⟨mid, m', old, finish, ahead', holding', finished, there, -, host, trace'⟩ :=
    finish_until_refused standing slots holding boxes (flag.trans fails) none_above position target
      shorter ahead
  obtain ⟨m'', unwind, ahead'', recounted, resolved, trace''⟩ :=
    holding'.run_ladder standing.standard_below ahead'
  have slot (name : String) : m''.host.slots.get? name =
      if r.name = name then some none else mid.host.slots.get? name := by
    rw [recounted.slots, host, Host.slot_setSlot, Host.slots_report, Host.slots_adjust]
  have unnamed (s : Rung) (mem : s ∈ above) : r.name ≠ s.name := by
    have names := standing.names
    rw [List.map_append, List.map_cons, List.nodup_append, List.nodup_cons] at names
    intro same
    exact names.2.1.1 (same ▸ List.mem_map_of_mem mem)
  refine ⟨m'', forward.trans (finish.trans unwind), ahead'', ?_, resolved.balanced, ?_, ?_, ?_, ?_,
    ?_, ?_⟩
  · obtain ⟨n, steps, -⟩ := forward
    have laid' := laid.trans (layout_eq ..)
    rw [← List.append_assoc] at laid'
    exact ⟨_, _, n, m, laid', steps, ahead, shown⟩
  · rw [slot, if_pos rfl]
  · intro s mem sync type declared
    rw [slot, if_neg (unnamed s mem)]
    exact finished.handle holding shown mem sync (none_above s mem) declared
  · intro name other
    obtain ⟨sync, -⟩ := boxes
    rw [slot, if_neg (other r (List.mem_cons_self ..) sync), ← slots_eq]
    apply finished.kept
    intro s mem
    exact other s (List.mem_cons_of_mem _ mem)
  · intro a inside
    rw [recounted.values, host, Host.value?_setSlot, Host.value?_report, Host.value?_adjust,
      finished.values a (shown.size.symm ▸ inside), shown.values]
  · rw [recounted.reports, host]
    show (mid.host.adjust old (-1)).reports.push _ = _
    rw [Host.reports_adjust, finished.reports, reports]
  · obtain ⟨sync, -⟩ := boxes
    rw [texts_left, trace'', trace', Array.toList_push, finished.trace, trace]
    simp [sync, Terminal.action]

end Rungs

/-! ## Built regions -/

section Accounted

variable {p : Plan} {region : Region} {trace : List String}

theorem Accounted.failed_once (accounted : p.Accounted region trace)
    (passed : region.failed.text ++ ":" ∈ trace) : trace.count (region.failed.text ++ ":") = 1 := by
  have most := accounted.failed.1
  have least := List.count_pos_iff.2 passed
  omega

/-- What was cleaned up was not published. -/
theorem Accounted.unsynced (accounted : p.Accounted region trace) {e : Entry} (mem : e ∈ p.entries)
    (cleaned : "cleanup " ++ e.binding.text ∈ trace) : "sync " ++ e.binding.text ∉ trace := by
  intro synced
  obtain ⟨j, here⟩ := List.getElem?_of_mem mem
  obtain ⟨k, extracted, -⟩ := accounted.extracted
  have once := extracted j e here
  have both := accounted.terminal e mem
  have := List.count_pos_iff.2 synced
  have := List.count_pos_iff.2 cleaned
  split at once <;> omega

end Accounted

/-- Where boxing fails, a region of built-in values around changes that need no boxes ends at the
last scalar it should publish, `bad`: what comes behind has been published, what comes before is
given up. The marks in the trace are those of a run that leaves for the ladder below the rung of
`bad`. -/
theorem run_interrupted {abi : Abi} {p : Plan} {changes : List Change} {region : Region} {h : Host}
    {before after : List Entry} {bad : Entry} {type : ScalarType} (grown : Plan.Grown abi p)
    (builtIn : ∀ e ∈ p.entries, e.node.IsBuiltIn) (fits : ∀ c ∈ changes, c.Fits p.typeOf?)
    (works : ∀ c ∈ changes, c.Works true)
    (built : p.build (fun _ => changes.flatMap Change.code) = .ok region)
    (balanced : h.balance = .balanced) (fails : h.boxingFails = true)
    (slots : ∀ e ∈ p.entries, h.HasSlot e.binding.text)
    (readable : ∀ e ∈ p.entries, h.reading e.binding.text e.varType ≠ none)
    (split : p.entries = before ++ bad :: after) (sync : bad.terminal = .sync)
    (scalar : bad.varType = .scalar type)
    (last : ∀ e ∈ after, e.terminal = .sync → e.varType = .handle) :
    ∃ trace h' c, h.RunsTo region.code region.code.length trace h' ∧
      changes.foldl Contents.apply (Contents.start h p.typeOf?) = c ∧
      ShowsBehind h region.code (changes.flatMap Change.code) p.typeOf? c ∧
      Interrupted h c bad after h' ∧
      trace.toList = extractTrace p.entries ++ ["body"] ++ actionTrace (bad :: after) ++
        ladderTrace p.stem before ∧
      trace.toList.count (region.failed.text ++ ":") = 1 ∧
      ∀ e ∈ before, "sync " ++ e.binding.text ∉ trace.toList := by
  obtain ⟨rungs, -, assembly⟩ := assembly_of_build built
  have standing := assembly.standing grown.nodup builtIn
  have raised := assembly.raised
  rw [split] at raised
  obtain ⟨below, rest, rfl, raised_below, raised_rest⟩ := rungsFrom_append raised
  obtain ⟨r, above, rfl, -, emitted, raised_above⟩ := rungsFrom_cons raised_rest
  have name : r.name = bad.binding.text := by rw [Rung.name, emitted.binding]
  have inside {e : Entry} (mem : e ∈ bad :: after) : e ∈ p.entries :=
    split ▸ List.mem_append_right _ mem
  have slots' (s : Rung) (mem : s ∈ below ++ r :: above) : h.HasSlot s.name := by
    obtain ⟨e, there, same, -⟩ := entry_of_rung assembly.raised mem
    exact same ▸ slots e there
  have readable' (s : Rung) (mem : s ∈ below ++ r :: above) : s.Readable p.typeOf? h := by
    obtain ⟨e, there, same, -⟩ := entry_of_rung assembly.raised mem
    exact readable_of_entry grown.nodup there same (readable e there)
  have boxes : r.Boxes p.typeOf? := by
    refine ⟨emitted.terminal.trans sync, type, ?_⟩
    rw [name, typeOf?_of_mem grown.nodup (inside (List.mem_cons_self ..)), scalar]
  have none_above (s : Rung) (mem : s ∈ above) : ¬ s.Boxes p.typeOf? := by
    rintro ⟨sync', type', declared⟩
    obtain ⟨e, there, same, terminal⟩ := entry_of_rung raised_above mem
    have typed := typeOf?_of_mem grown.nodup (inside (List.mem_cons_of_mem _ there))
    rw [last e there (terminal.symm.trans sync'), ← same, declared] at typed
    cases typed
  obtain ⟨m, forward, ahead, shows, balanced', cleared, published, others, values, reports,
      trace⟩ :=
    run_changes_until_refused standing assembly.landings assembly.code balanced slots' readable'
      fits (fails ▸ works) boxes fails none_above rfl
  have course := @Course.left region.failed region.done (below ++ r :: above)
    (Block.labels (changes.flatMap Change.code)) [] below (r :: above)
    (fun l mem => absurd mem List.not_mem_nil) rfl (fun s mem => Option.some.inj mem ▸ boxes.1)
  have accounted := course.accounted assembly grown.nodup assembly.apart
  rw [List.map_nil, List.nil_append, ← trace] at accounted
  have trace' : m.trace.toList = extractTrace p.entries ++ ["body"] ++ actionTrace (bad :: after) ++
      ladderTrace p.stem before := by
    rw [trace, texts_left, extractTrace_eq assembly.raised, finishTrace_eq raised_rest,
      ladderTrace_eq assembly raised_below, actionTrace]
  refine ⟨m.trace, m.host, _, Host.runsTo_of_forward forward ahead, rfl, shows,
    ⟨balanced', name ▸ cleared, ?_, ?_, ?_, name ▸ reports⟩, trace', ?_, ?_⟩
  · intro e mem sync'
    obtain ⟨s, there, same, terminal⟩ := rung_of_entry raised_above mem
    have declared := typeOf?_of_mem grown.nodup (inside (List.mem_cons_of_mem _ mem))
    rw [← same] at declared ⊢
    exact published s there (terminal.trans sync') _ declared
  · intro name' other
    apply others name'
    intro s mem sync'
    obtain ⟨e, there, same, terminal⟩ := entry_of_rung raised_rest mem
    rw [same]
    exact other e there (terminal.symm.trans sync')
  · intro a old
    obtain ⟨old', same⟩ := Contents.values_foldl_start changes old
    rw [values a old', same]
  · apply accounted.failed_once
    rw [trace, ← Mark.text_label, Mark.text_mem]
    simp [ladderMarks]
  · intro e mem
    apply accounted.unsynced (split ▸ List.mem_append_left _ mem)
    rw [trace']
    exact List.mem_append_right _ (mem_ladderTrace mem)

/-- An integer between two handles, all of them published. -/
def counterBetween : Plan :=
  { handleAndCounter with
    entries := handleAndCounter.entries ++ [⟨⟨2, .handle 0, none, .empty, none⟩, ⟨"b", rfl⟩, .sync⟩] }

theorem counterBetween_grown : Grown .standard counterBetween := by
  have third : Plan.bind handleAndCounter ⟨2, .handle 0, none, .empty, none⟩ ⟨"b", rfl⟩ .sync =
      .ok counterBetween := rfl
  exact .bind handleAndCounter_grown third

theorem counterBetween_entries {P : Entry → Prop}
    (handle : P ⟨⟨0, .handle 0, none, .empty, none⟩, ⟨"a", rfl⟩, .sync⟩)
    (counter : P ⟨⟨1, .scalar .int64 1, none, .empty, none⟩, ⟨"n", rfl⟩, .sync⟩)
    (other : P ⟨⟨2, .handle 0, none, .empty, none⟩, ⟨"b", rfl⟩, .sync⟩) :
    ∀ e ∈ counterBetween.entries, P e := by
  simp only [counterBetween, handleAndCounter, List.cons_append, List.nil_append,
    List.forall_mem_cons]
  exact ⟨handle, counter, other, by simp⟩

/-- One integer under two names, an object for the other handle, and no memory for boxes. -/
def exhausted : Host :=
  ⟨#[⟨.scalar (.int 3), 2⟩, ⟨.foreign 7, 1⟩], [("a", some 0), ("n", some 0), ("b", some 1)], #[],
    true⟩

/-- The handle behind the counter is published, the counter's slot is null, and the handle before
it keeps its object in the slot, cleared as its variable was. -/
theorem exhausted_run_interrupted :
    ∃ region trace h', counterBetween.build (fun _ => [Change.store "n" (.int 5), .share "b" "a",
        .clear "a"].flatMap Change.code) = .ok region ∧
      exhausted.run region.code = (.ok trace, h') ∧ h'.slots.get? "a" = some (some 0) ∧
      h'.slots.get? "n" = some none ∧ h'.slots.get? "b" = some (some 0) ∧
      h'.balance = .balanced ∧ h'.reports = #["n: box failed"] ∧
      trace.toList = ["extract a", "extract n", "extract b", "body", "sync b", "sync n",
        "r_fail_0:", "cleanup a", "r_failed:", "r_done:"] := by
  obtain ⟨region, built, short⟩ : ∃ region, counterBetween.build (fun _ =>
      [Change.store "n" (.int 5), .share "b" "a", .clear "a"].flatMap Change.code) = .ok region ∧
        region.code.length ≤ stepLimit := ⟨_, rfl, by decide⟩
  have builtIn : ∀ e ∈ counterBetween.entries, e.node.IsBuiltIn :=
    counterBetween_entries (.inl ⟨_, rfl⟩) (.inr ⟨_, _, rfl⟩) (.inl ⟨_, rfl⟩)
  have fits : ∀ c ∈ [Change.store "n" (.int 5), .share "b" "a", .clear "a"],
      c.Fits counterBetween.typeOf? := by
    simp only [List.forall_mem_cons]
    exact ⟨rfl, ⟨rfl, rfl⟩, rfl, by simp⟩
  have works : ∀ c ∈ [Change.store "n" (.int 5), .share "b" "a", .clear "a"], c.Works true := by
    simp [Change.Works]
  have slots : ∀ e ∈ counterBetween.entries, exhausted.HasSlot e.binding.text :=
    counterBetween_entries ⟨_, rfl⟩ ⟨_, rfl⟩ ⟨_, rfl⟩
  have readable : ∀ e ∈ counterBetween.entries,
      exhausted.reading e.binding.text e.varType ≠ none :=
    counterBetween_entries (by decide) (by decide) (by decide)
  have split : counterBetween.entries = counterBetween.entries.take 1 ++
      counterBetween.entries[1] :: counterBetween.entries.drop 2 := rfl
  have handles (e : Entry) (mem : e ∈ counterBetween.entries.drop 2) (_ : e.terminal = .sync) :
      e.varType = .handle := by
    cases List.mem_singleton.1 mem
    rfl
  obtain ⟨trace, h', c, runs, final, -, ⟨balanced, cleared, published, others, -, reports⟩,
      passed, -⟩ :=
    run_interrupted counterBetween_grown builtIn fits works built rfl rfl slots readable split rfl
      rfl handles
  obtain ⟨handle, entry, there⟩ := published _ (List.mem_singleton_self _) rfl
  have handle_eq : handle = some 0 := by
    subst final
    cases entry
    rfl
  refine ⟨region, trace, h', built, runs.run_eq short, ?_, cleared, handle_eq ▸ there, balanced,
    reports, passed⟩
  apply others "a"
  simp [counterBetween, handleAndCounter]

end HostBridge.Plan
