import HostBridge.Proofs.Run.Labels
import HostBridge.Proofs.Run.Steps
import HostBridge.Region.Plan
import Mathlib.Data.List.Induction

/-!
# How a region is put together

What `Plan.build` answers with, once and for all: `Plan.Assembly` names the rungs behind a
built region, its code as a sequence of parts and the uniqueness of its labels, and
`Fragment.Emitted` says which hook each part of a fragment comes from. Rungs stand on each
other from the first binding on, so facts about them go by the rungs below
(`Plan.rungs_at_entry`, `Plan.rungs_at_rung`).
-/

namespace HostBridge

theorem ok_of_mapError {ε δ α : Type} {x : Except ε α} {f : ε → δ} {a : α}
    (ok : x.mapError f = .ok a) : x = .ok a := by
  cases x with
  | error e => cases ok
  | ok a => cases ok; rfl

/-- Where code cannot do without a hook and there is code, the hook has answered with it. -/
theorem ok_of_require {α : Type} {n : Node} {capability : Capability}
    {answer : Except ValueError α} {a : α} (ok : n.require capability answer = .ok a) :
    answer = .ok a := by
  cases answer with
  | error e => cases ok
  | ok a => cases ok; rfl

theorem text_of_ofText {s : String} {l : Label} (ok : Label.ofText s = .ok l) : l.text = s := by
  unfold Label.ofText at ok
  split at ok
  · cases ok; rfl
  · cases ok

/-- The parts of a fragment are the answers of a kind's hooks. -/
structure Fragment.Emitted (k : Kind) (e : Entry) (fail syncFail : Label) (f : Fragment) : Prop where
  binding : f.binding = e.binding
  terminal : f.terminal = e.terminal
  declare : k.declare e.binding = .ok f.declare
  extract : k.extract e.binding fail = .ok f.extract
  cleanup : k.cleanup e.binding = .ok f.cleanup
  finish_cleanup : e.terminal = .cleanup → f.finish = f.cleanup
  finish_sync : e.terminal = .sync → k.sync e.binding syncFail = .ok f.finish

/-- All hooks of an entry have answered where its fragment is there. The cleanup hook answers once
and its code stands in two places unless the binding is to be published. -/
theorem Fragment.emitted_of_emit {e : Entry} {fail syncFail : Label} {f : Fragment}
    (ok : Fragment.emit e.node e.binding fail syncFail e.terminal = .ok f) :
    f.Emitted e.node.kind e fail syncFail := by
  unfold Fragment.emit at ok
  obtain ⟨declare, hdeclare, ok⟩ := ok_of_bind ok
  obtain ⟨extract, hextract, ok⟩ := ok_of_bind ok
  obtain ⟨cleanup, hcleanup, ok⟩ := ok_of_bind ok
  cases terminal : e.terminal with
  | cleanup =>
    rw [terminal] at ok
    cases ok
    refine ⟨rfl, terminal.symm, ok_of_require hdeclare, ok_of_require hextract,
      ok_of_require hcleanup, fun _ => rfl, fun sync => ?_⟩
    cases terminal.symm.trans sync
  | sync =>
    rw [terminal] at ok
    obtain ⟨finish, hfinish, ok⟩ := ok_of_bind ok
    cases ok
    refine ⟨rfl, terminal.symm, ok_of_require hdeclare, ok_of_require hextract,
      ok_of_require hcleanup, fun cleanup => ?_, fun _ => ok_of_require hfinish⟩
    cases terminal.symm.trans cleanup

namespace Plan

/-- The name a rung's value is bound under. -/
def Rung.name (r : Rung) : String :=
  r.fragment.binding.text

def bindings (rungs : List Rung) : List Binding :=
  rungs.map (·.fragment.binding)

theorem bindings_append (rungs more : List Rung) :
    bindings (rungs ++ more) = bindings rungs ++ bindings more := by
  simp [bindings]

/-! ## The parts of the code -/

def declarations (rungs : List Rung) : Block :=
  rungs.flatMap (·.fragment.declare)

def extraction (rungs : List Rung) : Block :=
  rungs.flatMap fun r => .comment ("extract " ++ r.name) :: r.fragment.extract

def publication (rungs : List Rung) : Block :=
  rungs.reverse.flatMap fun r =>
    .comment (r.fragment.terminal.action ++ " " ++ r.name) :: r.fragment.finish

def ladder (rungs : List Rung) : Block :=
  rungs.reverse.flatMap fun r =>
    .label r.fail :: .comment ("cleanup " ++ r.name) :: r.fragment.cleanup

/-- The two labels at the end. -/
def exits (failed done : Label) : Block :=
  [.label failed, .label done]

/-- The code of a region part by part, in the order in which it runs. -/
theorem layout_eq (failed done : Label) (rungs : List Rung) (body : Block) :
    layout failed done rungs body =
      declarations rungs ++ (extraction rungs ++ (.comment "body" :: (body ++ (publication rungs ++
        (.goto done :: (ladder rungs ++ exits failed done)))))) := by
  simp [layout, declarations, extraction, publication, ladder, exits, Rung.name]

@[simp] theorem declarations_cons (r : Rung) (rungs : List Rung) :
    declarations (r :: rungs) = r.fragment.declare ++ declarations rungs := by
  simp [declarations]

@[simp] theorem extraction_cons (r : Rung) (rungs : List Rung) :
    extraction (r :: rungs) =
      .comment ("extract " ++ r.name) :: (r.fragment.extract ++ extraction rungs) := by
  simp [extraction]

theorem extraction_append (rungs more : List Rung) :
    extraction (rungs ++ more) = extraction rungs ++ extraction more := by
  simp [extraction]

@[simp] theorem publication_snoc (rungs : List Rung) (r : Rung) :
    publication (rungs ++ [r]) =
      .comment (r.fragment.terminal.action ++ " " ++ r.name) ::
        (r.fragment.finish ++ publication rungs) := by
  simp [publication]

@[simp] theorem ladder_snoc (rungs : List Rung) (r : Rung) :
    ladder (rungs ++ [r]) =
      .label r.fail :: .comment ("cleanup " ++ r.name) :: (r.fragment.cleanup ++ ladder rungs) := by
  simp [ladder]

/-- The ladder goes down, so upper rungs stand before lower ones. -/
theorem ladder_append (rungs more : List Rung) :
    ladder (rungs ++ more) = ladder more ++ ladder rungs := by
  simp [ladder]

@[simp] theorem top_snoc (failed : Label) (rungs : List Rung) (r : Rung) :
    top failed (rungs ++ [r]) = r.fail := by
  simp [top]

/-- The top of a ladder is that of its upper part, which stands on the label of the first rung. -/
theorem top_cons (failed : Label) (r : Rung) (rungs : List Rung) :
    top failed (r :: rungs) = top r.fail rungs := by
  cases rungs using List.reverseRecOn with
  | nil => rfl
  | append_singleton rest last => rw [← List.cons_append, top_snoc, top_snoc]

/-- The ladder begins with the label at its top. -/
theorem ladder_eq_cons (failed done : Label) (rungs : List Rung) :
    ∃ rest, ladder rungs ++ exits failed done = .label (top failed rungs) :: rest := by
  cases rungs using List.reverseRecOn with
  | nil => exact ⟨_, rfl⟩
  | append_singleton rest last => exact ⟨_, by rw [ladder_snoc, top_snoc]; rfl⟩

/-! ## Rungs -/

theorem text_of_labelOf {stem ending : String} {l : Label} (ok : labelOf stem ending = .ok l) :
    l.text = stem ++ ("_" ++ ending) := by
  rw [text_of_ofText ok, String.append_assoc]

theorem text_of_rung_label {stem : String} {index : Nat} {l : Label}
    (ok : labelOf stem ("fail_" ++ toString index) = .ok l) :
    l.text = stem ++ "_fail_" ++ toString index := by
  have joined : "_" ++ ("fail_" ++ toString index) = "_fail_" ++ toString index := by
    rw [← String.append_assoc]
    rfl
  rw [text_of_labelOf ok, joined, String.append_assoc]

/-- The first entry gives the first rung, and its label is what the later ones stand on. -/
theorem rungsFrom_cons {stem : String} {index : Nat} {below : Label} {e : Entry}
    {entries : List Entry} {rungs : List Rung}
    (ok : rungsFrom stem index below (e :: entries) = .ok rungs) :
    ∃ r rest, rungs = r :: rest ∧ r.fail.text = stem ++ "_fail_" ++ toString index ∧
      r.fragment.Emitted e.node.kind e r.fail below ∧
      rungsFrom stem (index + 1) r.fail entries = .ok rest := by
  rw [rungsFrom] at ok
  obtain ⟨fail, hfail, ok⟩ := ok_of_bind ok
  obtain ⟨fragment, hfragment, ok⟩ := ok_of_bind ok
  obtain ⟨others, hothers, ok⟩ := ok_of_bind ok
  cases ok
  exact ⟨⟨fragment, fail⟩, others, rfl, text_of_rung_label (ok_of_mapError hfail),
    Fragment.emitted_of_emit hfragment, hothers⟩

/-- Earlier entries give the lower rungs, and later ones stand on the top of those. -/
theorem rungsFrom_append {stem : String} {index : Nat} {below : Label} {first second : List Entry}
    {rungs : List Rung} (ok : rungsFrom stem index below (first ++ second) = .ok rungs) :
    ∃ rs rest, rungs = rs ++ rest ∧ rungsFrom stem index below first = .ok rs ∧
      rungsFrom stem (index + first.length) (top below rs) second = .ok rest := by
  induction first generalizing index below rungs with
  | nil => exact ⟨[], rungs, rfl, rfl, ok⟩
  | cons e first ih =>
    rw [List.cons_append, rungsFrom] at ok
    obtain ⟨fail, hfail, ok⟩ := ok_of_bind ok
    obtain ⟨fragment, hfragment, ok⟩ := ok_of_bind ok
    obtain ⟨others, hothers, ok⟩ := ok_of_bind ok
    cases ok
    obtain ⟨rs, rest, rfl, hrs, hrest⟩ := ih hothers
    refine ⟨⟨fragment, fail⟩ :: rs, rest, rfl, ?_, ?_⟩
    · rw [rungsFrom, bind_of_ok hfail, bind_of_ok hfragment, bind_of_ok hrs]
    · have shifted : index + (e :: first).length = index + 1 + first.length := by
        rw [List.length_cons]
        omega
      rw [top_cons, shifted]
      exact hrest

/-- Each entry gives one rung. -/
theorem length_rungsFrom {stem : String} {index : Nat} {below : Label} {entries : List Entry}
    {rungs : List Rung} (ok : rungsFrom stem index below entries = .ok rungs) :
    rungs.length = entries.length := by
  induction entries generalizing index below rungs with
  | nil => cases ok; rfl
  | cons e entries ih =>
    obtain ⟨r, rest, rfl, -, -, hrest⟩ := rungsFrom_cons ok
    rw [List.length_cons, List.length_cons, ih hrest]

/-- Rungs have the bindings and terminals of the entries. -/
theorem terminals_rungsFrom {stem : String} {index : Nat} {below : Label} {entries : List Entry}
    {rungs : List Rung} (ok : rungsFrom stem index below entries = .ok rungs) :
    rungs.map (fun r => (r.fragment.binding, r.fragment.terminal)) =
      entries.map fun e => (e.binding, e.terminal) := by
  induction entries generalizing index below rungs with
  | nil => cases ok; rfl
  | cons e entries ih =>
    obtain ⟨r, rest, rfl, -, emitted, hrest⟩ := rungsFrom_cons ok
    rw [List.map_cons, List.map_cons, ih hrest, emitted.binding, emitted.terminal]

theorem bindings_rungsFrom {stem : String} {index : Nat} {below : Label} {entries : List Entry}
    {rungs : List Rung} (ok : rungsFrom stem index below entries = .ok rungs) :
    bindings rungs = entries.map (·.binding) := by
  have := congrArg (List.map Prod.fst) (terminals_rungsFrom ok)
  simpa [bindings, List.map_map, Function.comp_def] using this

/-- Rungs have the names that the values are bound under. -/
theorem names_rungsFrom {stem : String} {index : Nat} {below : Label} {entries : List Entry}
    {rungs : List Rung} (ok : rungsFrom stem index below entries = .ok rungs) :
    rungs.map Rung.name = entries.map (·.binding.text) := by
  have := congrArg (List.map Binding.text) (bindings_rungsFrom ok)
  rw [bindings, List.map_map, List.map_map] at this
  exact this

/-- The rung of an entry has its name and its terminal. -/
theorem rung_of_entry {stem : String} {index : Nat} {below : Label} {entries : List Entry}
    {rungs : List Rung} (ok : rungsFrom stem index below entries = .ok rungs) {e : Entry}
    (mem : e ∈ entries) :
    ∃ r ∈ rungs, r.name = e.binding.text ∧ r.fragment.terminal = e.terminal := by
  have there : (e.binding, e.terminal) ∈
      rungs.map fun r => (r.fragment.binding, r.fragment.terminal) := by
    rw [terminals_rungsFrom ok]
    exact List.mem_map_of_mem mem
  obtain ⟨r, mem', same⟩ := List.mem_map.1 there
  obtain ⟨binding, terminal⟩ := Prod.mk.inj same
  exact ⟨r, mem', congrArg Binding.text binding, terminal⟩

/-- A rung has the name and the terminal of the entry that gives it. -/
theorem entry_of_rung {stem : String} {index : Nat} {below : Label} {entries : List Entry}
    {rungs : List Rung} (ok : rungsFrom stem index below entries = .ok rungs) {r : Rung}
    (mem : r ∈ rungs) :
    ∃ e ∈ entries, r.name = e.binding.text ∧ r.fragment.terminal = e.terminal := by
  have there : (r.fragment.binding, r.fragment.terminal) ∈
      entries.map fun e => (e.binding, e.terminal) := by
    rw [← terminals_rungsFrom ok]
    exact List.mem_map_of_mem mem
  obtain ⟨e, mem', same⟩ := List.mem_map.1 there
  obtain ⟨binding, terminal⟩ := Prod.mk.inj same
  exact ⟨e, mem', congrArg Binding.text binding.symm, terminal.symm⟩

/-- The rung that an entry gives, on top of those of the entries before it. -/
structure Raised (stem : String) (failed : Label) (below : List Rung) (e : Entry) (r : Rung) :
    Prop where
  fail_text : r.fail.text = stem ++ "_fail_" ++ toString below.length
  emitted : r.fragment.Emitted e.node.kind e r.fail (top failed below)

/-- The rung of an entry stands where the entry does. -/
theorem rungs_at_entry {stem : String} {failed : Label} {before after : List Entry} {e : Entry}
    {rungs : List Rung} (ok : rungsFrom stem 0 failed (before ++ e :: after) = .ok rungs) :
    ∃ below r above, rungs = below ++ r :: above ∧ rungsFrom stem 0 failed before = .ok below ∧
      Raised stem failed below e r := by
  obtain ⟨below, rest, rfl, hbelow, hrest⟩ := rungsFrom_append ok
  obtain ⟨r, above, rfl, text, emitted, -⟩ := rungsFrom_cons hrest
  refine ⟨below, r, above, rfl, hbelow, ?_, emitted⟩
  rw [text, length_rungsFrom hbelow, Nat.zero_add]

/-- Every rung is the rung of the entry in its place. -/
theorem rungs_at_rung {stem : String} {failed : Label} {entries : List Entry}
    {below above : List Rung} {r : Rung}
    (ok : rungsFrom stem 0 failed entries = .ok (below ++ r :: above)) :
    ∃ before e after, entries = before ++ e :: after ∧
      rungsFrom stem 0 failed before = .ok below ∧ Raised stem failed below e r := by
  have bound : below.length < entries.length := by
    rw [← length_rungsFrom ok, List.length_append, List.length_cons]
    omega
  have split : entries = entries.take below.length ++
      entries[below.length] :: entries.drop (below.length + 1) := by
    rw [List.getElem_cons_drop, List.take_append_drop]
  rw [split] at ok
  obtain ⟨below', r', above', e, hbelow, raised⟩ := rungs_at_entry ok
  have length : below'.length = below.length := by
    rw [length_rungsFrom hbelow, List.length_take]
    omega
  obtain ⟨rfl, tail⟩ := List.append_inj e length.symm
  obtain ⟨rfl, -⟩ := List.cons.inj tail
  exact ⟨_, _, _, split, hbelow, raised⟩

/-! ## Built regions -/

/-- What is behind a built region with that body: its rungs, raised one by one, and its code, which
defines no label twice. -/
structure Assembly (p : Plan) (body : Block) (region : Region) (rungs : List Rung) : Prop where
  raised : rungsFrom p.stem 0 region.failed p.entries = .ok rungs
  code : region.code = layout region.failed region.done rungs body
  labels : region.code.labels.Nodup
  failed_text : region.failed.text = p.stem ++ "_failed"
  done_text : region.done.text = p.stem ++ "_done"

/-- What is built is an assembly around the body, which was given the top of the ladder to jump to.
-/
theorem assembly_of_build {p : Plan} {body : Label → Block} {region : Region}
    (built : p.build body = .ok region) :
    ∃ rungs, p.bodyTarget = .ok (top region.failed rungs) ∧
      p.Assembly (body (top region.failed rungs)) region rungs := by
  unfold build at built
  obtain ⟨failed, hfailed, built⟩ := ok_of_bind built
  obtain ⟨done, hdone, built⟩ := ok_of_bind built
  obtain ⟨rungs, hrungs, built⟩ := ok_of_bind built
  dsimp only at built
  split at built
  · cases built
  · next unique =>
    obtain ⟨requirements, -, built⟩ := ok_of_bind built
    cases built
    refine ⟨rungs, ?_, hrungs, rfl, (Block.clash?_eq_none_iff _).1 unique,
      text_of_labelOf (ok_of_mapError hfailed), text_of_labelOf (ok_of_mapError hdone)⟩
    rw [bodyTarget, bind_of_ok hfailed, bind_of_ok hrungs]

/-- The labels of the ladder and the last one are where the code has them. -/
structure Landings (code : Block) (failed done : Label) (rungs : List Rung) : Prop where
  top : ∀ below above, rungs = below ++ above → ∃ i, code.position? (top failed below) = some i ∧
    code.drop i = ladder below ++ exits failed done
  done : ∃ i, code.position? done = some i ∧ code.drop i = [.label done]

/-- Landings of a ladder are landings of its lower part. -/
theorem Landings.below {code : Block} {failed done : Label} {rungs more : List Rung}
    (landings : Landings code failed done (rungs ++ more)) : Landings code failed done rungs where
  top := by
    rintro below above rfl
    exact landings.top below (above ++ more) (List.append_assoc ..)
  done := landings.done

namespace Assembly

variable {p : Plan} {body : Block} {region : Region} {rungs : List Rung}

/-- Jumping to the top of the rungs below leads down the ladder from there. -/
theorem position_top (assembly : p.Assembly body region rungs) {below above : List Rung}
    (split : rungs = below ++ above) :
    ∃ i, region.code.position? (top region.failed below) = some i ∧
      region.code.drop i = ladder below ++ exits region.failed region.done := by
  obtain ⟨rest, head⟩ := ladder_eq_cons region.failed region.done below
  rw [head]
  apply Block.position?_of_suffix assembly.labels
  rw [← head, assembly.code, layout_eq, split, ladder_append]
  simp only [← List.append_assoc, ← List.cons_append]
  rw [List.append_assoc]
  exact List.suffix_append _ _

/-- The last label is found at the end of the code. -/
theorem position_done (assembly : p.Assembly body region rungs) :
    ∃ i, region.code.position? region.done = some i ∧ region.code.drop i = [.label region.done] := by
  apply Block.position?_of_suffix assembly.labels
  rw [assembly.code, layout]
  exact (List.suffix_cons _ _).trans (List.suffix_append _ _)

/-- In a built region all jumps to the ladder or the end land where the layout has them. -/
theorem landings (assembly : p.Assembly body region rungs) :
    Landings region.code region.failed region.done rungs :=
  ⟨fun _ _ => assembly.position_top, assembly.position_done⟩

end Assembly

end Plan

end HostBridge
