import HostBridge.Proofs.Region.Extraction
import HostBridge.Proofs.Region.Unwinding

/-!
# A slot that cannot be read

Extraction that fails leaves the host as it was but for one report, whatever the body is:
what the earlier bindings acquired is given back on the ladder, and nothing else runs
(`Plan.run_of_unreadable_slot`).
-/

namespace HostBridge.Plan

open Machine

/-- What a run passes while these entries are extracted. -/
def extractTrace (entries : List Entry) : List String :=
  entries.map fun e => "extract " ++ e.binding.text

/-- What a run passes from the ladder's rung for the last of these entries to the end. -/
def ladderTrace (stem : String) (entries : List Entry) : List String :=
  (entries.zipIdx.reverse.flatMap fun (e, j) =>
      [stem ++ "_fail_" ++ toString j ++ ":", "cleanup " ++ e.binding.text]) ++
    [stem ++ "_failed:", stem ++ "_done:"]

theorem extractTrace_eq {stem : String} {index : Nat} {below : Label} {entries : List Entry}
    {rungs : List Rung} (ok : rungsFrom stem index below entries = .ok rungs) :
    (rungs.map fun r => "extract " ++ r.name) = extractTrace entries := by
  have := congrArg (List.map ("extract " ++ ·)) (names_rungsFrom ok)
  simpa [extractTrace, List.map_map, Function.comp_def] using this

/-- The ladder of a plan passes the labels of its positions, from the last one down. -/
theorem descent_rungsFrom {stem : String} {index : Nat} {below : Label} {entries : List Entry}
    {rungs : List Rung} (ok : rungsFrom stem index below entries = .ok rungs) :
    descent rungs = (entries.zipIdx index).reverse.flatMap fun (e, j) =>
      [stem ++ "_fail_" ++ toString j ++ ":", "cleanup " ++ e.binding.text] := by
  induction entries generalizing index below rungs with
  | nil => cases ok; rfl
  | cons e entries ih =>
    obtain ⟨r, rest, rfl, text, emitted, hrest⟩ := rungsFrom_cons ok
    have tail := ih hrest
    unfold descent at tail ⊢
    rw [List.reverse_cons, List.flatMap_append, tail, List.zipIdx_cons, List.reverse_cons,
      List.flatMap_append]
    simp [text, Rung.name, emitted.binding]

theorem ladderTrace_eq {p : Plan} {body : Block} {region : Region} {rungs upto : List Rung}
    {entries : List Entry} (assembly : p.Assembly body region rungs)
    (raised : rungsFrom p.stem 0 region.failed entries = .ok upto) :
    descent upto ++ [region.failed.text ++ ":", region.done.text ++ ":"] =
      ladderTrace p.stem entries := by
  have failed_text : region.failed.text ++ ":" = p.stem ++ "_failed:" := by
    rw [assembly.failed_text, String.append_assoc]
    rfl
  have done_text : region.done.text ++ ":" = p.stem ++ "_done:" := by
    rw [assembly.done_text, String.append_assoc]
    rfl
  rw [descent_rungsFrom raised, failed_text, done_text, ladderTrace]

/-- Up to the bad rung and down again. The body is jumped over: what is left behind at the jump is
longer than the ladder by more than the body. -/
theorem run_refused {types : String → Option VarType} {failed done : Label} {below above : List Rung}
    {r : Rung} {body code : Block} {h : Host} {type : ScalarType} {i : Nat}
    (standing : Standing types failed (below ++ r :: above))
    (slots : ∀ s ∈ below ++ [r], h.SlotUsable s.name) (readable : ∀ s ∈ below, s.Readable types h)
    (declared : types r.name = some (.scalar type)) (missing : h.reading r.name (.scalar type) = none)
    (laid : code = layout failed done (below ++ r :: above) body)
    (position : code.position? r.fail = some i)
    (landing : code.drop i = ladder (below ++ [r]) ++ exits failed done) :
    ∃ n m, Steps code n (Machine.start h) m ∧ m.ahead code = [] ∧ n + body.length ≤ code.length ∧
      m.host = h.report (r.name ++ ": expected " ++ type.name) ∧
      m.trace.toList = ((below ++ [r]).map fun s => "extract " ++ s.name) ++
        descent (below ++ [r]) ++ [failed.text ++ ":", done.text ++ ":"] := by
  have slots_below (s : Rung) (mem : s ∈ below) : h.SlotUsable s.name :=
    slots s (List.mem_append_left _ mem)
  obtain ⟨m₁, ⟨a, up, bound⟩, ahead, extracted, trace⟩ :=
    run_extraction (h := h) standing slots_below readable (laid.trans (layout_eq ..))
  rw [extraction_cons, List.cons_append, List.append_assoc] at ahead
  obtain ⟨m₂, jump, ahead₂, vars, host, trace₂⟩ :=
    extract_refused extracted (standing.standard below r above rfl) (slots r (by simp)) declared
      missing position landing ahead
  have ledger : Ledger h.count (owners types (below ++ [r])) m₂.host m₂.vars := by
    rw [owners_snoc_scalar declared, vars, host]
    exact extracted.ledger
  have backed (name : String) (mem : name ∈ owners types (below ++ [r])) (a : Address)
      (holds : handleIn m₂.vars name = some a) : 0 ≤ h.count a := by
    rw [owners_snoc_scalar declared] at mem
    rw [vars] at holds
    have := extracted.counted slots_below mem holds
    omega
  have standard (s : Rung) (mem : s ∈ below ++ [r]) : ∃ label, s.Standard types label := by
    obtain ⟨below', above', e⟩ := List.append_of_mem mem
    refine ⟨_, standing.standard below' s (above' ++ above) ?_⟩
    rw [List.append_cons, e, List.append_assoc, List.cons_append]
  obtain ⟨m₃, ⟨b, down, bound'⟩, ahead₃, recounted, counts, trace₃⟩ :=
    run_ladder standard (vars ▸ extracted.typed) ledger backed ahead₂
  refine ⟨a + 2 + b, m₃, (up.trans jump).trans down, ahead₃, ?_, ?_, ?_⟩
  · rw [ahead, ahead_start] at bound
    rw [ahead₂] at bound'
    have ladder_eq : ladder (below ++ r :: above) = ladder above ++ ladder (below ++ [r]) := by
      rw [List.append_cons, ladder_append]
    simp only [ladder_eq, List.length_append, List.length_cons] at bound bound'
    omega
  · apply Host.Recounted.eq_of_count
    · rw [host] at recounted
      exact (extracted.recounted.report _).trans recounted
    · exact counts
  · rw [trace₃, trace₂]
    simp [trace]

theorem readable_of_entry {p : Plan} {h : Host} {e : Entry} {r : Rung}
    (nodup : (p.entries.map (·.binding.text)).Nodup) (mem : e ∈ p.entries)
    (name : r.name = e.binding.text) (readable : h.reading e.binding.text e.varType ≠ none) :
    r.Readable p.typeOf? h := by
  intro type declared
  rw [name, typeOf?_of_mem nodup mem] at declared
  cases declared
  rwa [name]

/-- The run passes the extractions up to the one that fails and then the ladder below it, and leaves
the host as it was but for one report. It reaches no rung above that of the bad entry and needs no
step for the body. -/
theorem run_of_unreadable_slot {abi : Abi} {p : Plan} {body : Label → Block} {region : Region}
    {h : Host} {good rest : List Entry} {bad : Entry} {type : ScalarType} (grown : Plan.Grown abi p)
    (builtIn : ∀ e ∈ p.entries, e.node.IsBuiltIn) (built : p.build body = .ok region)
    (slots : ∀ e ∈ p.entries, h.SlotUsable e.binding.text)
    (split : p.entries = good ++ bad :: rest)
    (readable : ∀ e ∈ good, h.reading e.binding.text e.varType ≠ none)
    (scalar : bad.varType = .scalar type)
    (missing : h.reading bad.binding.text (.scalar type) = none) :
    ∃ target, p.bodyTarget = .ok target ∧
      h.RunsTo region.code (region.code.length - (body target).length)
        (extractTrace (good ++ [bad]) ++ ladderTrace p.stem (good ++ [bad])).toArray
        (h.report (bad.binding.text ++ ": expected " ++ type.name)) := by
  obtain ⟨rungs, target, assembly⟩ := assembly_of_build built
  refine ⟨_, target, ?_⟩
  have standing := assembly.standing grown.nodup builtIn
  have raised := assembly.raised
  rw [split, List.append_cons] at raised
  obtain ⟨upto, above, rungs_eq, raised_upto, -⟩ := rungsFrom_append raised
  obtain ⟨below, tail, rfl, raised_below, raised_tail⟩ := rungsFrom_append raised_upto
  obtain ⟨r, none_above, rfl, -, emitted, nothing⟩ := rungsFrom_cons raised_tail
  cases nothing
  rw [List.append_assoc, List.singleton_append] at rungs_eq
  subst rungs_eq
  have bad_mem : bad ∈ p.entries := by rw [split]; simp
  have name : r.name = bad.binding.text := by rw [Rung.name, emitted.binding]
  have declared : p.typeOf? r.name = some (.scalar type) := by
    rw [name, typeOf?_of_mem grown.nodup bad_mem, scalar]
  obtain ⟨i, position, landing⟩ := assembly.position_top (List.append_cons below r above)
  rw [top_snoc] at position
  obtain ⟨n, m, steps, ahead, bound, host, trace⟩ := run_refused (h := h) standing
    (fun s mem => by
      obtain ⟨e, there, same, -⟩ := entry_of_rung raised_upto mem
      exact same ▸ slots e (by rw [split, List.append_cons]; exact List.mem_append_left _ there))
    (fun s mem => by
      obtain ⟨e, there, same, -⟩ := entry_of_rung raised_below mem
      exact readable_of_entry grown.nodup (by rw [split]; simp [there]) same (readable e there))
    declared (name ▸ missing) assembly.code position landing
  have trace_eq : m.trace =
      (extractTrace (good ++ [bad]) ++ ladderTrace p.stem (good ++ [bad])).toArray := by
    apply Array.toList_inj.1
    rw [trace, List.append_assoc, extractTrace_eq raised_upto, ladderTrace_eq assembly raised_upto]
  rw [← name, ← host, ← trace_eq]
  exact Host.runsTo_of_steps steps (halted_iff_ahead.2 ahead) (by omega)

/-- A host with an object for the handle and null for the counter. -/
def nullCounter : Host :=
  ⟨#[⟨.foreign 7, 1⟩], [("a", some 0), ("n", none)], #[], false⟩

/-- The counter's slot is null, so what was taken from the handle's is given back. -/
theorem run_of_null_counter :
    ∃ region, handleAndCounter.build (fun fail => [.goto fail]) = .ok region ∧
      nullCounter.run region.code =
        (.ok #["extract a", "extract n", "r_fail_1:", "cleanup n", "r_fail_0:", "cleanup a",
          "r_failed:", "r_done:"], nullCounter.report "n: expected int64") := by
  have slots : ∀ e ∈ handleAndCounter.entries, nullCounter.SlotUsable e.binding.text := by
    simp only [handleAndCounter, List.forall_mem_cons]
    refine ⟨⟨some 0, rfl, fun a e => ?_⟩, ⟨none, rfl, Host.usable_none _⟩, by simp⟩
    cases e
    decide
  have readable (e : Entry) (mem : e ∈ handleAndCounter.entries.take 1) :
      nullCounter.reading e.binding.text e.varType ≠ none := by
    cases List.mem_singleton.1 mem
    simp [nullCounter, Host.reading, Entry.varType, Kind.handle, Table.get?]
  obtain ⟨region, built, short⟩ : ∃ region,
      handleAndCounter.build (fun fail => [.goto fail]) = .ok region ∧
        region.code.length ≤ stepLimit := ⟨_, rfl, by decide⟩
  obtain ⟨target, -, runs⟩ := run_of_unreadable_slot handleAndCounter_grown
    handleAndCounter_builtIn built slots rfl readable rfl rfl
  exact ⟨region, built, runs.run_eq (Nat.le_trans (Nat.sub_le _ _) short)⟩

end HostBridge.Plan
