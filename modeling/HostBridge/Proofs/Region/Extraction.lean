import HostBridge.Proofs.Region.BuiltIn
import HostBridge.Proofs.Run.Steps

/-!
# Extraction

The first part of a region of built-in values declares the native variables and reads the
host slots into them, binding by binding. `Extracted` is the state between two bindings:
the variables of the rungs so far have what their slots gave, handles with a reference of
their own, and the host differs in counts only.

A slot gives nothing when its variable is a scalar and it holds no object of that type.
The first such slot is reported and leads to its rung of the ladder (`extract_refused`).
-/

namespace HostBridge

/-- What extracting a slot gives a variable of that type. -/
def Host.reading (h : Host) (name : String) : VarType → Option VarContent
  | .handle => (h.slots.get? name).map .handle
  | .scalar type => ((h.slots.get? name).bind fun handle => h.scalarAt handle type).map .scalar

/-- There is a slot of that name, and it is null or points at an object with references left. -/
def Host.SlotUsable (h : Host) (name : String) : Prop :=
  ∃ handle, h.slots.get? name = some handle ∧ h.Usable handle

namespace Plan

open Machine

variable {code : Block} {types : String → Option VarType} {failed done : Label} {h : Host}

/-- The rung's slot gives its variable something. -/
def Rung.Readable (types : String → Option VarType) (h : Host) (r : Rung) : Prop :=
  ∀ type, types r.name = some type → h.reading r.name type ≠ none

/-! ## Declarations -/

/-- Afterwards the names of the rungs are declared, beside those that were before. -/
theorem run_declarations {rungs : List Rung} (standard : ∀ r ∈ rungs, ∃ below, r.Standard types below)
    {m : Machine} {rest : Block} (at_ : m.ahead code = declarations rungs ++ rest) :
    ∃ m', Forward code m m' ∧ m'.ahead code = rest ∧ m'.host = m.host ∧ m'.trace = m.trace ∧
      ∀ name type, types name = some type →
        name ∈ rungs.map Rung.name ∨
          (∃ content, m.vars.get? name = some content ∧ content.type = type) →
        ∃ content, m'.vars.get? name = some content ∧ content.type = type := by
  induction rungs generalizing m with
  | nil =>
    refine ⟨m, .refl m, at_, rfl, rfl, fun name type _ declared => ?_⟩
    exact declared.resolve_left List.not_mem_nil
  | cons r rungs ih =>
    obtain ⟨below, standard_r⟩ := standard r (List.mem_cons_self ..)
    obtain ⟨type, declare, types_r⟩ :
        ∃ type, r.fragment.declare = [.declare r.name type] ∧ types r.name = some type := by
      cases standard_r with
      | handle type => exact ⟨_, rfl, type⟩
      | scalar type => exact ⟨_, rfl, type⟩
    rw [declarations_cons, declare, List.append_assoc] at at_
    obtain ⟨first, ahead⟩ := Forward.one at_ (step_declare r.name type) rfl
    obtain ⟨m', forward, ahead', host, trace, declared⟩ :=
      ih (fun r' mem => standard r' (List.mem_cons_of_mem _ mem)) ahead
    refine ⟨m', first.trans forward, ahead', host, trace, fun name type' type_eq before => ?_⟩
    apply declared name type' type_eq
    by_cases e : r.name = name
    · subst e
      cases type_eq.symm.trans types_r
      exact .inr ⟨type.start, by simp [Table.get?_put], VarType.type_start type⟩
    · rcases before with mem | ⟨content, there, ok⟩
      · exact .inl ((List.mem_cons.1 mem).resolve_left (Ne.symm e))
      · exact .inr ⟨content, by simpa [Table.get?_put, e] using there, ok⟩

/-! ## Slots -/

/-- The rungs have been extracted from the slots of `h`. -/
structure Extracted (types : String → Option VarType) (h : Host) (rungs : List Rung) (m : Machine) :
    Prop where
  typed : Typed types m.vars
  ledger : Ledger h.count (owners types rungs) m.host m.vars
  recounted : h.Recounted m.host
  read : ∀ r ∈ rungs, ∀ type, types r.name = some type → m.vars.get? r.name = h.reading r.name type

theorem Extracted.usable {rungs : List Rung} {m : Machine} (extracted : Extracted types h rungs m)
    {handle : Handle} (usable : h.Usable handle) : m.host.Usable handle := by
  intro a e
  have := usable a e
  have := extracted.ledger a
  omega

/-- Objects are looked into as on the host that the run began with. -/
theorem Extracted.scalarAt {rungs : List Rung} {m : Machine} (extracted : Extracted types h rungs m)
    (handle : Handle) (type : ScalarType) :
    m.host.scalarAt handle type = h.scalarAt handle type := by
  cases handle with
  | none => rfl
  | some a =>
    simp only [Host.scalarAt, Option.bind_some]
    rw [extracted.recounted.values]

/-- What an owner holds had references before it was extracted. -/
theorem Extracted.counted {rungs : List Rung} {m : Machine} (extracted : Extracted types h rungs m)
    (slots : ∀ r ∈ rungs, h.SlotUsable r.name) {name : String} (mem : name ∈ owners types rungs)
    {a : Address} (holds : handleIn m.vars name = some a) : 0 < h.count a := by
  obtain ⟨⟨r, there, rfl⟩, type⟩ := mem_owners.1 mem
  obtain ⟨handle, slot, usable⟩ := slots r there
  have read := extracted.read r there _ type
  rw [Host.reading, slot, Option.map_some] at read
  rw [handleIn_of_get? read] at holds
  exact usable a holds

/-- The names of the other rungs are not touched when one more is read. -/
theorem Extracted.read_snoc {rungs : List Rung} {m : Machine} (extracted : Extracted types h rungs m)
    {r : Rung} (fresh : r.name ∉ rungs.map Rung.name) {type : VarType}
    (types_r : types r.name = some type) {content : VarContent}
    (read : h.reading r.name type = some content) :
    ∀ s ∈ rungs ++ [r], ∀ type, types s.name = some type →
      (m.vars.put r.name content).get? s.name = h.reading s.name type := by
  intro s mem type' types_s
  rw [Table.get?_put]
  rcases List.mem_append.1 mem with mem | mem
  · have ne : r.name ≠ s.name := fun e => fresh (e ▸ List.mem_map_of_mem mem)
    rw [if_neg ne]
    exact extracted.read s mem type' types_s
  · cases List.mem_singleton.1 mem
    cases types_r.symm.trans types_s
    rw [if_pos rfl, read]

/-- One more rung, whose slot can be read. -/
theorem extract_rung {rungs : List Rung} {r : Rung} {below : Label} {m : Machine} {rest : Block}
    (extracted : Extracted types h rungs m) (standard : r.Standard types below)
    (fresh : r.name ∉ rungs.map Rung.name) (slot : h.SlotUsable r.name)
    (readable : r.Readable types h)
    (at_ : m.ahead code = .comment ("extract " ++ r.name) :: (r.fragment.extract ++ rest)) :
    ∃ m', Forward code m m' ∧ m'.ahead code = rest ∧ Extracted types h (rungs ++ [r]) m' ∧
      m'.trace = m.trace.push ("extract " ++ r.name) := by
  obtain ⟨handle, there, usable⟩ := slot
  obtain ⟨note, ahead⟩ := Forward.one at_ (step_comment _) rfl
  have place : m.host.slots.get? r.name = some handle := by rw [extracted.recounted.slots, there]
  have live := extracted.usable usable
  cases standard with
  | @handle b terminal fail type =>
    obtain ⟨old, declared⟩ := extracted.typed.handle type
    obtain ⟨acquire, ahead⟩ := Forward.one ahead (step_incRef (readHandle_host place) live) rfl
    have place' : (m.host.adjust handle 1).slots.get? b.text = some handle := by
      rw [Host.slots_adjust]
      exact place
    obtain ⟨copy, ahead⟩ :=
      Forward.one ahead (step_assign_native (readHandle_host place') declared) rfl
    refine ⟨_, note.trans (acquire.trans copy), ahead, ⟨?_, ?_, ?_, ?_⟩, rfl⟩
    · exact extracted.typed.put_of_type type rfl
    · rw [owners_snoc_handle type]
      exact extracted.ledger.acquire (fun mem => fresh (List.mem_map.2 (mem_owners.1 mem).1)) live
    · exact extracted.recounted.trans (Host.recounted_adjust m.host handle 1)
    · exact extracted.read_snoc fresh type (by rw [Host.reading, there]; rfl)
  | @scalar b terminal fail type declared =>
    obtain ⟨old, oldThere, oldType⟩ := extracted.typed.scalar declared
    obtain ⟨content, read⟩ := Option.ne_none_iff_exists'.1 (readable _ declared)
    obtain ⟨value, found, rfl⟩ := Option.map_eq_some_iff.1 read
    rw [there, Option.bind_some] at found
    have found' : m.host.scalarAt handle type = some value := by rw [extracted.scalarAt, found]
    obtain ⟨unbox, ahead⟩ :=
      Forward.one ahead (step_unbox (readHandle_host place) live found' oldThere oldType) rfl
    refine ⟨_, note.trans unbox, ahead, ⟨?_, ?_, extracted.recounted, ?_⟩, rfl⟩
    · exact extracted.typed.put_of_type declared
        (congrArg VarType.scalar (Host.scalarType_of_scalarAt found))
    · rw [owners_snoc_scalar declared]
      refine extracted.ledger.put (fun mem => ?_) _
      cases (mem_owners.1 mem).2.symm.trans declared
    · exact extracted.read_snoc fresh declared read

/-- A scalar rung whose slot cannot be read: two statements, to where its label leads. -/
theorem extract_refused {rungs : List Rung} {r : Rung} {below : Label} {m : Machine}
    {rest landing : Block} {type : ScalarType} {i : Nat} (extracted : Extracted types h rungs m)
    (standard : r.Standard types below) (slot : h.SlotUsable r.name)
    (declared : types r.name = some (.scalar type))
    (missing : h.reading r.name (.scalar type) = none) (position : code.position? r.fail = some i)
    (target : code.drop i = landing)
    (at_ : m.ahead code = .comment ("extract " ++ r.name) :: (r.fragment.extract ++ rest)) :
    ∃ m', Steps code 2 m m' ∧ m'.ahead code = landing ∧ m'.vars = m.vars ∧
      m'.host = m.host.report (r.name ++ ": expected " ++ type.name) ∧
      m'.trace = m.trace.push ("extract " ++ r.name) := by
  obtain ⟨handle, there, usable⟩ := slot
  have place : m.host.slots.get? r.name = some handle := by rw [extracted.recounted.slots, there]
  have missing' : m.host.scalarAt handle type = none := by
    rw [extracted.scalarAt]
    simpa [Host.reading, there] using missing
  have note := Steps.single (fetch_of_ahead at_) (step_comment _)
  have ahead : { m with trace := m.trace.push ("extract " ++ r.name), next := m.next + 1 }.ahead code =
      r.fragment.extract ++ rest := ahead_succ at_ rfl
  cases standard with
  | handle types_r => cases types_r.symm.trans declared
  | scalar types_r =>
    cases types_r.symm.trans declared
    have jump := Steps.single (fetch_of_ahead ahead)
      (step_unbox_refused (readHandle_host place) (extracted.usable usable) missing' position)
    exact ⟨_, note.trans jump, target, rfl, rfl, rfl⟩

/-- A sequence of rungs whose slots can be read. -/
theorem extract_rungs {rungs good : List Rung} {m : Machine} {rest : Block}
    (extracted : Extracted types h rungs m) (standard : ∀ r ∈ good, ∃ below, r.Standard types below)
    (names : ((rungs ++ good).map Rung.name).Nodup) (slots : ∀ r ∈ good, h.SlotUsable r.name)
    (readable : ∀ r ∈ good, r.Readable types h) (at_ : m.ahead code = extraction good ++ rest) :
    ∃ m', Forward code m m' ∧ m'.ahead code = rest ∧ Extracted types h (rungs ++ good) m' ∧
      m'.trace.toList = m.trace.toList ++ good.map fun r => "extract " ++ r.name := by
  induction good generalizing rungs m with
  | nil => exact ⟨m, .refl m, at_, by simpa using extracted, by simp⟩
  | cons r good ih =>
    have here := List.mem_cons_self (a := r) (l := good)
    obtain ⟨below, standard_r⟩ := standard r here
    have fresh : r.name ∉ rungs.map Rung.name := by
      rw [List.map_append, List.nodup_append] at names
      exact fun mem => names.2.2 _ mem _ (List.mem_map_of_mem here) rfl
    rw [extraction_cons, List.cons_append, List.append_assoc] at at_
    obtain ⟨mid, first, ahead, extracted', trace⟩ :=
      extract_rung extracted standard_r fresh (slots r here) (readable r here) at_
    obtain ⟨m', forward, ahead', extracted'', trace'⟩ :=
      ih extracted' (fun s mem => standard s (List.mem_cons_of_mem _ mem))
        (by simpa using names) (fun s mem => slots s (List.mem_cons_of_mem _ mem))
        (fun s mem => readable s (List.mem_cons_of_mem _ mem)) ahead
    refine ⟨m', first.trans forward, ahead', by simpa using extracted'', ?_⟩
    rw [trace', trace]
    simp

/-- From the start of a region to behind the extraction of some first rungs. -/
theorem run_extraction {good more : List Rung} {rest : Block}
    (standing : Standing types failed (good ++ more))
    (slots : ∀ r ∈ good, h.SlotUsable r.name) (readable : ∀ r ∈ good, r.Readable types h)
    (laid : code = declarations (good ++ more) ++ (extraction (good ++ more) ++ rest)) :
    ∃ m, Forward code (Machine.start h) m ∧ m.ahead code = extraction more ++ rest ∧
      Extracted types h good m ∧ m.trace.toList = good.map fun r => "extract " ++ r.name := by
  have standard (r : Rung) (mem : r ∈ good ++ more) : ∃ below, r.Standard types below := by
    obtain ⟨below, above, split⟩ := List.append_of_mem mem
    exact ⟨_, standing.standard below r above split⟩
  obtain ⟨m, declare, ahead, host, trace, declared⟩ :=
    run_declarations standard ((ahead_start h).trans laid)
  have extracted : Extracted types h [] m := by
    refine ⟨fun name type types_name => ?_, fun a => ?_, ?_, fun r mem => ?_⟩
    · obtain ⟨r, mem, rfl⟩ := standing.covers name type types_name
      exact declared _ type types_name (.inl (List.mem_map_of_mem mem))
    · rw [host, owners, List.map_nil, List.filter_nil, held_nil]
      exact (Int.add_zero _).symm
    · rw [host]
      exact .refl h
    · cases mem
  rw [extraction_append, List.append_assoc] at ahead
  have names : (([] ++ good).map Rung.name).Nodup := by
    have := standing.names
    rw [List.map_append] at this
    exact (List.nodup_append.1 this).1
  obtain ⟨m', forward, ahead', extracted', trace'⟩ :=
    extract_rungs extracted (fun r mem => standard r (List.mem_append_left _ mem)) names slots
      readable ahead
  refine ⟨m', declare.trans forward, ahead', extracted', ?_⟩
  rw [trace', trace]
  rfl

/-! ## Behind the extraction -/

/-- The variables of the rungs own a reference each, the slots own all others, and no slot of
`h` is gone. -/
structure Holding (types : String → Option VarType) (h : Host) (rungs : List Rung) (m : Machine) :
    Prop where
  typed : Typed types m.vars
  settled : Settled (owners types rungs) m.host m.vars
  slots : ∀ name, h.HasSlot name → m.host.HasSlot name

theorem Extracted.holding {rungs : List Rung} {m : Machine} (extracted : Extracted types h rungs m)
    (balanced : h.balance = .balanced) : Holding types h rungs m where
  typed := extracted.typed
  settled := by
    apply settled_iff.2
    intro a
    rw [extracted.ledger a, (Host.balance_eq_balanced_iff h).1 balanced a,
      extracted.recounted.holders]
  slots := by
    rintro name ⟨handle, there⟩
    exact ⟨handle, by rw [extracted.recounted.slots, there]⟩

theorem Holding.usable {rungs : List Rung} {m : Machine} (holding : Holding types h rungs m)
    {v : String} {handle : Handle} (mem : v ∈ owners types rungs)
    (there : m.vars.get? v = some (.handle handle)) : m.host.Usable handle := by
  rw [← handleIn_of_get? there]
  exact holding.settled.usable mem fun _ _ => Int.natCast_nonneg _

/-- What a slot holds can be used. -/
theorem Holding.usable_slot {rungs : List Rung} {m : Machine} (holding : Holding types h rungs m)
    {name : String} {handle : Handle} (there : m.host.slots.get? name = some handle) :
    m.host.Usable handle := by
  rintro a rfl
  have := Host.holders_pos there
  have := settled_iff.1 holding.settled a
  omega

/-- Other content for a variable that is no owner. -/
theorem Holding.put {rungs : List Rung} {m m' : Machine} (holding : Holding types h rungs m)
    {v : String} (out : v ∉ owners types rungs) (content : VarContent)
    (fits : ∀ type, types v = some type → content.type = type) (host : m'.host = m.host)
    (vars : m'.vars = m.vars.put v content) : Holding types h rungs m' where
  typed := vars ▸ holding.typed.put content fits
  settled := by
    rw [vars, host]
    exact holding.settled.put out content
  slots := host ▸ holding.slots

/-- A report owns nothing. -/
theorem Holding.report {rungs : List Rung} {m m' : Machine} (holding : Holding types h rungs m)
    {text : String} (host : m'.host = m.host.report text) (vars : m'.vars = m.vars) :
    Holding types h rungs m' := by
  obtain ⟨typed, settled, slots⟩ := holding
  refine ⟨vars ▸ typed, ?_, ?_⟩
  · rw [vars, host]
    exact settled
  · rw [host]
    exact slots

/-- Another handle for an owner. -/
theorem Holding.replace {rungs : List Rung} {m m' : Machine} (holding : Holding types h rungs m)
    (nodup : (owners types rungs).Nodup) {v : String} (mem : v ∈ owners types rungs)
    {old new : Handle} (there : m.vars.get? v = some (.handle old))
    (slots : m'.host.slots = m.host.slots) (vars : m'.vars = m.vars.put v (.handle new))
    (counts : ∀ a, m'.host.count a + refs old a = m.host.count a + refs new a) :
    Holding types h rungs m' where
  typed := vars ▸ holding.typed.put_of_type (mem_owners.1 mem).2 rfl
  settled := by
    have ledger : Ledger (fun a => m.host.holders a) (owners types rungs) m'.host
        (m.vars.put v (.handle new)) := by
      apply holding.settled.replace mem nodup
      intro a
      rw [handleIn_of_get? there]
      exact counts a
    apply settled_iff.2
    intro a
    rw [vars, Host.holders_eq m'.host, slots]
    exact ledger a
  slots := by
    rintro name has
    obtain ⟨handle, there⟩ := holding.slots name has
    exact ⟨handle, by rw [slots, there]⟩

end Plan
end HostBridge
