import HostBridge.Proofs.Region.Extraction

/-!
# Publication

Behind the body the rungs are finished from the last one down: published to their slots or
given back. `Finished` compares the machine before and after with what the variables had
before: published slots have it, other slots are as they were, and what one rung put in
its slot no other rung disturbs.

A scalar that cannot be boxed ends this (`sync_refused`). Its slot is null by then and
the rungs below are still held.
-/

namespace HostBridge

/-- The slot has what a variable had: the handle, or a new object with the scalar, held by the
slot alone. Objects from `since` on are new. -/
def Host.Publishes (h : Host) (name : String) (since : Nat) : VarContent → Prop
  | .handle handle => h.slots.get? name = some handle
  | .scalar value =>
    ∃ a, since ≤ a ∧ h.slots.get? name = some (some a) ∧ h.value? a = some (.scalar value) ∧
      h.count a = 1

/-- An object with one reference, which a slot has, is held by nothing else: the slot would still
have it if any other one were cleared. -/
theorem sole_of_settled {owners : List String} {host : Host} {vars : Table VarContent} {name : String}
    {a : Address} (settled : Settled owners host vars)
    (there : host.slots.get? name = some (some a)) (one : host.count a = 1) :
    held vars owners a = 0 ∧
      ∀ other handle, other ≠ name → host.slots.get? other = some handle → refs handle a = 0 := by
  have count := settled_iff.1 settled a
  have pos := Host.holders_pos there
  refine ⟨by omega, fun other handle ne other_there => ?_⟩
  have cleared := Host.holders_setSlot other_there none a
  have still : (host.setSlot other none).slots.get? name = some (some a) := by
    rw [Host.slot_setSlot, if_neg ne, there]
  have pos' := Host.holders_pos still
  rw [refs_none] at cleared
  omega

namespace Plan

open Machine

variable {code : Block} {types : String → Option VarType} {failed : Label} {h : Host}
  {rungs : List Rung} {r : Rung} {m : Machine} {rest : Block}

/-- The rungs were finished between `m` and `m'`. -/
structure Finished (rungs : List Rung) (m m' : Machine) : Prop where
  vars : ∀ name, name ∉ rungs.map Rung.name → m'.vars.get? name = m.vars.get? name
  kept : ∀ name, (∀ r ∈ rungs, r.fragment.terminal = .sync → r.name ≠ name) →
    m'.host.slots.get? name = m.host.slots.get? name
  published : ∀ r ∈ rungs, r.fragment.terminal = .sync →
    ∃ content, m.vars.get? r.name = some content ∧
      m'.host.Publishes r.name m.host.objects.size content
  single : ∀ name a, name ∉ rungs.map Rung.name → m.host.slots.get? name = some (some a) →
    m.host.count a = 1 → m'.host.count a = 1
  values : ∀ a, a < m.host.objects.size → m'.host.value? a = m.host.value? a
  size : m.host.objects.size ≤ m'.host.objects.size
  reports : m'.host.reports = m.host.reports
  boxingFails : m'.host.boxingFails = m.host.boxingFails
  trace : m'.trace.toList =
    m.trace.toList ++ rungs.reverse.map fun r => r.fragment.terminal.action ++ " " ++ r.name

/-! ## What finishing one binding does -/

section Binding

variable {old : Handle}

/-- The variable's reference goes to the slot, and the slot's is given back. -/
theorem publish_handle (holding : Holding types h (rungs ++ [r]) m)
    (type : types r.name = some .handle) (fresh : r.name ∉ owners types rungs)
    (slot : m.host.slots.get? r.name = some old)
    (at_ : m.ahead code = .decRef (.host r.name) :: .assign (.host r.name) (.native r.name) ::
      .clear (.native r.name) :: rest) :
    ∃ m' handle, Forward code m m' ∧ m'.ahead code = rest ∧
      m.vars.get? r.name = some (.handle handle) ∧ m'.vars = m.vars.put r.name (.handle none) ∧
      m'.host = (m.host.adjust old (-1)).setSlot r.name handle ∧ m'.trace = m.trace ∧
      Holding types h rungs m' := by
  have live := holding.usable_slot slot
  obtain ⟨handle, there⟩ := holding.typed.handle type
  obtain ⟨giveBack, ahead⟩ := Forward.one at_ (step_decRef (readHandle_host slot) live) rfl
  have slot' : (m.host.adjust old (-1)).slots.get? r.name = some old := by
    rw [Host.slots_adjust, slot]
  obtain ⟨publish, ahead⟩ :=
    Forward.one ahead (step_assign_host (readHandle_native there) slot') rfl
  obtain ⟨clear, ahead⟩ := Forward.one ahead (step_clear_native there) rfl
  refine ⟨_, handle, giveBack.trans (publish.trans clear), ahead, there, rfl, rfl, rfl, ?_, ?_, ?_⟩
  · exact holding.typed.put_of_type type rfl
  · apply settled_iff.2
    intro a
    have before := settled_iff.1 holding.settled a
    rw [owners_snoc_handle type, held_snoc, handleIn_of_get? there] at before
    have moved := Host.holders_setSlot slot' handle a
    rw [Host.holders_adjust] at moved
    dsimp only
    rw [Host.count_setSlot, Host.count_adjust live, held_put_of_not_mem fresh]
    omega
  · intro name has
    exact Host.hasSlot_setSlot (by simpa [Host.HasSlot] using holding.slots name has)

/-- The variable's reference is given back. -/
theorem drop_handle (holding : Holding types h (rungs ++ [r]) m)
    (type : types r.name = some .handle)
    (at_ : m.ahead code = .decRef (.native r.name) :: rest) :
    ∃ m' handle, Forward code m m' ∧ m'.ahead code = rest ∧
      m.vars.get? r.name = some (.handle handle) ∧ m'.vars = m.vars ∧
      m'.host = m.host.adjust handle (-1) ∧ m'.trace = m.trace ∧ Holding types h rungs m' := by
  obtain ⟨handle, there⟩ := holding.typed.handle type
  have mem : r.name ∈ owners types (rungs ++ [r]) := by
    rw [owners_snoc_handle type]
    simp
  have live := holding.usable mem there
  obtain ⟨giveBack, ahead⟩ := Forward.one at_ (step_decRef (readHandle_native there) live) rfl
  refine ⟨_, handle, giveBack, ahead, there, rfl, rfl, rfl, holding.typed, ?_, ?_⟩
  · apply settled_iff.2
    intro a
    have before := settled_iff.1 holding.settled a
    rw [owners_snoc_handle type, held_snoc, handleIn_of_get? there] at before
    dsimp only
    rw [Host.count_adjust live, Host.holders_adjust]
    omega
  · intro name has
    simpa [Host.HasSlot] using holding.slots name has

/-- The slot's reference is given back and a new object takes its place. -/
theorem publish_scalar {type : ScalarType} {below : Label}
    (holding : Holding types h (rungs ++ [r]) m) (declared : types r.name = some (.scalar type))
    (slot : m.host.slots.get? r.name = some old)
    (works : m.host.boxingFails = false)
    (at_ : m.ahead code = .decRef (.host r.name) :: .box (.host r.name) r.name type ::
      .gotoIfNull (.host r.name) below :: rest) :
    ∃ m' value, Forward code m m' ∧ m'.ahead code = rest ∧
      m.vars.get? r.name = some (.scalar value) ∧ m'.vars = m.vars ∧
      m'.host = ((m.host.adjust old (-1)).allocate (.scalar value)).setSlot r.name
        (some m.host.objects.size) ∧ m'.trace = m.trace ∧ Holding types h rungs m' := by
  have live := holding.usable_slot slot
  obtain ⟨value, there, rfl⟩ := holding.typed.scalar declared
  obtain ⟨giveBack, ahead⟩ := Forward.one at_ (step_decRef (readHandle_host slot) live) rfl
  have slot' : (m.host.adjust old (-1)).slots.get? r.name = some old := by
    rw [Host.slots_adjust, slot]
  obtain ⟨box, ahead⟩ :=
    Forward.one ahead (step_box_host there slot' (by simpa using works)) rfl
  have filled : (((m.host.adjust old (-1)).allocate (.scalar value)).setSlot r.name
      (some (m.host.adjust old (-1)).objects.size)).slots.get? r.name =
      some (some (m.host.adjust old (-1)).objects.size) := by
    rw [Host.slot_setSlot, if_pos rfl]
  obtain ⟨go, ahead⟩ :=
    Forward.one ahead (step_gotoIfNull_of_some (readHandle_host filled)) rfl
  refine ⟨_, value, giveBack.trans (box.trans go), ahead, there, rfl, ?_, rfl, holding.typed, ?_, ?_⟩
  · rw [Host.size_adjust]
  · apply settled_iff.2
    intro a
    have before := settled_iff.1 holding.settled a
    rw [owners_snoc_scalar declared] at before
    have counts := Host.count_allocate_adjust live (.scalar value) a
    have moved := Host.holders_setSlot (h := (m.host.adjust old (-1)).allocate (.scalar value)) slot'
      (some m.host.objects.size) a
    rw [Host.holders_allocate, Host.holders_adjust] at moved
    dsimp only
    rw [Host.count_setSlot, Host.size_adjust]
    omega
  · intro name has
    exact Host.hasSlot_setSlot (by simpa [Host.HasSlot] using holding.slots name has)

/-- Where boxing fails the slot is null and its reference is given back all the same; the run
goes on where the label of the rung below leads. -/
theorem sync_refused {type : ScalarType} {below : Label} {i : Nat}
    (holding : Holding types h (rungs ++ [r]) m) (declared : types r.name = some (.scalar type))
    (slot : m.host.slots.get? r.name = some old)
    (fails : m.host.boxingFails = true) (position : code.position? below = some i)
    (shorter : (code.drop i).length ≤ rest.length)
    (at_ : m.ahead code = .decRef (.host r.name) :: .box (.host r.name) r.name type ::
      .gotoIfNull (.host r.name) below :: rest) :
    ∃ m', Forward code m m' ∧ m'.ahead code = code.drop i ∧ m'.vars = m.vars ∧
      m'.host =
        ((m.host.adjust old (-1)).report (r.name ++ ": box failed")).setSlot r.name none ∧
      m'.trace = m.trace ∧ Holding types h rungs m' := by
  have live := holding.usable_slot slot
  obtain ⟨value, there, rfl⟩ := holding.typed.scalar declared
  obtain ⟨giveBack, ahead⟩ := Forward.one at_ (step_decRef (readHandle_host slot) live) rfl
  have slot' : (m.host.adjust old (-1)).slots.get? r.name = some old := by
    rw [Host.slots_adjust, slot]
  obtain ⟨box, ahead⟩ :=
    Forward.one ahead (step_box_host_failed there slot' (by simpa using fails)) rfl
  have cleared : (((m.host.adjust old (-1)).report (r.name ++ ": box failed")).setSlot r.name
      none).slots.get? r.name = some none := by
    rw [Host.slot_setSlot, if_pos rfl]
  have leave := Forward.jump ahead
    (step_gotoIfNull_of_none (readHandle_host cleared) position) shorter
  refine ⟨_, giveBack.trans (box.trans leave), rfl, rfl, rfl, rfl, holding.typed, ?_, ?_⟩
  · apply settled_iff.2
    intro a
    have before := settled_iff.1 holding.settled a
    rw [owners_snoc_scalar declared] at before
    have moved := Host.holders_setSlot
      (h := (m.host.adjust old (-1)).report (r.name ++ ": box failed")) slot' none a
    rw [Host.holders_report, Host.holders_adjust, refs_none] at moved
    dsimp only
    rw [Host.count_setSlot, Host.count_report, Host.count_adjust live]
    omega
  · intro name has
    exact Host.hasSlot_setSlot (by simpa [Host.HasSlot] using holding.slots name has)

end Binding

/-! ## What finishing rungs does -/

theorem Finished.nil (m : Machine) : Finished [] m m where
  vars := fun _ _ => rfl
  kept := fun _ _ => rfl
  published := fun _ mem => absurd mem List.not_mem_nil
  single := fun _ _ _ _ one => one
  values := fun _ _ => rfl
  size := Nat.le_refl _
  reports := rfl
  boxingFails := rfl
  trace := by simp

/-- What a rung has published stays while the rungs below it are finished. -/
theorem Finished.publishes {m' : Machine} (finished : Finished rungs m m') {name : String}
    {since : Nat} {content : VarContent} (fresh : name ∉ rungs.map Rung.name)
    (published : m.host.Publishes name since content) : m'.host.Publishes name since content := by
  have slot : m'.host.slots.get? name = m.host.slots.get? name :=
    finished.kept name fun r mem _ e => fresh (e ▸ List.mem_map_of_mem mem)
  cases content with
  | handle handle =>
    rw [Host.Publishes, slot]
    exact published
  | scalar value =>
    obtain ⟨a, new, there, found, one⟩ := published
    refine ⟨a, new, slot.trans there, ?_, finished.single name a fresh there one⟩
    rw [finished.values a (Host.lt_size_of_value? found), found]

/-- Objects that are new later on are new. -/
theorem publishes_mono {host : Host} {name : String} {since earlier : Nat} {content : VarContent}
    (le : earlier ≤ since) (published : host.Publishes name since content) :
    host.Publishes name earlier content := by
  cases content with
  | handle handle => exact published
  | scalar value =>
    obtain ⟨a, new, rest⟩ := published
    exact ⟨a, Nat.le_trans le new, rest⟩

/-- The last rung is finished before those below it. -/
theorem Finished.trans {mid m' : Machine} (last : Finished [r] m mid)
    (below : Finished rungs mid m') (fresh : r.name ∉ rungs.map Rung.name) :
    Finished (rungs ++ [r]) m m' where
  vars := by
    intro name out
    simp only [List.map_append, List.mem_append, not_or] at out
    rw [below.vars name out.1, last.vars name out.2]
  kept := by
    intro name other
    rw [below.kept name fun s mem => other s (List.mem_append_left _ mem),
      last.kept name fun s mem => other s (List.mem_append_right _ mem)]
  published := by
    intro s mem sync
    rcases List.mem_append.1 mem with mem | mem
    · obtain ⟨content, there, published⟩ := below.published s mem sync
      have ne : s.name ∉ [r].map Rung.name := by
        rw [List.map_singleton, List.mem_singleton]
        exact fun e => fresh (e ▸ List.mem_map_of_mem mem)
      exact ⟨content, by rw [← last.vars _ ne, there], publishes_mono last.size published⟩
    · obtain ⟨content, there, published⟩ := last.published s mem sync
      cases List.mem_singleton.1 mem
      exact ⟨content, there, below.publishes fresh published⟩
  single := by
    intro name a out there one
    simp only [List.map_append, List.mem_append, not_or] at out
    have kept : mid.host.slots.get? name = m.host.slots.get? name :=
      last.kept name fun s mem _ e => out.2 (e ▸ List.mem_map_of_mem mem)
    exact below.single name a out.1 (kept.trans there) (last.single name a out.2 there one)
  values := by
    intro a inside
    rw [below.values a (Nat.lt_of_lt_of_le inside last.size), last.values a inside]
  size := Nat.le_trans last.size below.size
  reports := below.reports.trans last.reports
  boxingFails := below.boxingFails.trans last.boxingFails
  trace := by
    rw [below.trace, last.trace]
    simp

/-- A rung that has been published, from what happened to its own slot. -/
theorem finished_of_sync {m' : Machine} {old : Handle} (content : VarContent)
    (holding : Holding types h (rungs ++ [r]) m)
    (sync : r.fragment.terminal = .sync) (slot : m.host.slots.get? r.name = some old)
    (vars : ∀ name, name ≠ r.name → m'.vars.get? name = m.vars.get? name)
    (slots : ∀ name, name ≠ r.name → m'.host.slots.get? name = m.host.slots.get? name)
    (there : m.vars.get? r.name = some content)
    (published : m'.host.Publishes r.name m.host.objects.size content)
    (counts : ∀ a, a < m.host.objects.size → m'.host.count a + refs old a = m.host.count a)
    (values : ∀ a, a < m.host.objects.size → m'.host.value? a = m.host.value? a)
    (size : m.host.objects.size ≤ m'.host.objects.size)
    (reports : m'.host.reports = m.host.reports)
    (boxingFails : m'.host.boxingFails = m.host.boxingFails)
    (trace : m'.trace = m.trace.push ("sync " ++ r.name)) : Finished [r] m m' where
  vars := by
    intro name out
    exact vars name (by simpa using out)
  kept := by
    intro name other
    exact slots name (Ne.symm (other r (List.mem_singleton_self r) sync))
  published := by
    intro s mem _
    cases List.mem_singleton.1 mem
    exact ⟨content, there, published⟩
  single := by
    intro name a out there one
    have ne : r.name ≠ name := fun e => out (by simp [e])
    have free := (sole_of_settled holding.settled there one).2 r.name old ne slot
    have := counts a (Host.lt_size_of_count_ne (by omega))
    omega
  values := values
  size := size
  reports := reports
  boxingFails := boxingFails
  trace := by simp [trace, sync, Terminal.action]

/-- The slot of a rung has the handle of its variable. -/
theorem finished_of_handle {m' : Machine} {old handle : Handle}
    (holding : Holding types h (rungs ++ [r]) m) (sync : r.fragment.terminal = .sync)
    (slot : m.host.slots.get? r.name = some old) (there : m.vars.get? r.name = some (.handle handle))
    (vars : m'.vars = m.vars.put r.name (.handle none))
    (host : m'.host = (m.host.adjust old (-1)).setSlot r.name handle)
    (trace : m'.trace = m.trace.push ("sync " ++ r.name)) : Finished [r] m m' := by
  have live := holding.usable_slot slot
  refine finished_of_sync (.handle handle) holding sync slot ?_ ?_ there ?_ ?_ ?_ ?_ ?_ ?_ trace
  · intro name ne
    rw [vars, Table.get?_put, if_neg (Ne.symm ne)]
  · intro name ne
    rw [host, Host.slot_setSlot, if_neg (Ne.symm ne), Host.slots_adjust]
  · rw [host, Host.Publishes, Host.slot_setSlot, if_pos rfl]
  · intro a _
    rw [host, Host.count_setSlot, Host.count_adjust live]
    omega
  · intro a _
    rw [host, Host.value?_setSlot, Host.value?_adjust]
  all_goals simp [host, Host.setSlot]

/-- The slot of a rung has a new object with the scalar of its variable. -/
theorem finished_of_scalar {m' : Machine} {old : Handle} {value : Literal}
    (holding : Holding types h (rungs ++ [r]) m) (sync : r.fragment.terminal = .sync)
    (slot : m.host.slots.get? r.name = some old) (there : m.vars.get? r.name = some (.scalar value))
    (vars : m'.vars = m.vars)
    (host : m'.host = ((m.host.adjust old (-1)).allocate (.scalar value)).setSlot r.name
      (some m.host.objects.size))
    (trace : m'.trace = m.trace.push ("sync " ++ r.name)) : Finished [r] m m' := by
  have live := holding.usable_slot slot
  refine finished_of_sync (.scalar value) holding sync slot ?_ ?_ there ?_ ?_ ?_ ?_ ?_ ?_ trace
  · intro name _
    rw [vars]
  · intro name ne
    rw [host, Host.slot_setSlot, if_neg (Ne.symm ne), Host.slots_allocate, Host.slots_adjust]
  · refine ⟨m.host.objects.size, Nat.le_refl _, ?_, ?_, ?_⟩
    · rw [host, Host.slot_setSlot, if_pos rfl]
    · rw [host, Host.value?_setSlot, Host.value?_allocate, Host.size_adjust]
      exact if_pos rfl
    · rw [host, Host.count_setSlot, Host.count_allocate, Host.size_adjust]
      exact if_pos rfl
  · intro a inside
    rw [host, Host.count_setSlot, Host.count_allocate, Host.size_adjust,
      if_neg (Nat.ne_of_lt inside), Host.count_adjust live]
    omega
  · intro a inside
    rw [host, Host.value?_setSlot, Host.value?_allocate, Host.size_adjust,
      if_neg (Nat.ne_of_lt inside), Host.value?_adjust]
  all_goals simp [host, Host.setSlot, Host.allocate]

/-- A rung that has been given up, where no slot changes. -/
theorem finished_of_cleanup {m' : Machine} (handle : Handle)
    (cleanup : r.fragment.terminal = .cleanup) (vars : m'.vars = m.vars)
    (host : m'.host = m.host.adjust handle (-1)) (usable : m.host.Usable handle)
    (owned : ∀ name a, m.host.slots.get? name = some (some a) → m.host.count a = 1 →
      refs handle a = 0)
    (trace : m'.trace = m.trace.push ("cleanup " ++ r.name)) : Finished [r] m m' where
  vars := by
    intro name _
    rw [vars]
  kept := by
    intro name _
    rw [host, Host.slots_adjust]
  published := by
    intro s mem sync
    cases List.mem_singleton.1 mem
    cases cleanup.symm.trans sync
  single := by
    intro name a _ there one
    have free := owned name a there one
    rw [host, Host.count_adjust usable]
    omega
  values := by
    intro a _
    rw [host, Host.value?_adjust]
  size := by
    rw [host]
    exact Nat.le_of_eq (Host.size_adjust ..).symm
  reports := by
    rw [host, Host.reports_adjust]
  boxingFails := by
    rw [host, Host.boxingFails_adjust]
  trace := by simp [trace, cleanup, Terminal.action]

/-- Publishing the rung makes a new object. -/
def Rung.Boxes (types : String → Option VarType) (r : Rung) : Prop :=
  r.fragment.terminal = .sync ∧ ∃ type, types r.name = some (.scalar type)

/-- One rung is finished, unless a box fails. -/
theorem finish_rung {below : Label} (standard : r.Standard types below)
    (fresh : r.name ∉ rungs.map Rung.name) (holding : Holding types h (rungs ++ [r]) m)
    (slot : m.host.HasSlot r.name) (works : r.Boxes types → m.host.boxingFails = false)
    (at_ : m.ahead code =
      .comment (r.fragment.terminal.action ++ " " ++ r.name) :: (r.fragment.finish ++ rest)) :
    ∃ m', Forward code m m' ∧ m'.ahead code = rest ∧ Holding types h rungs m' ∧
      Finished [r] m m' := by
  obtain ⟨old, there⟩ := slot
  have noOwner : r.name ∉ owners types rungs := fun mem =>
    fresh (List.mem_map.2 (mem_owners.1 mem).1)
  obtain ⟨note, ahead⟩ := Forward.one at_ (step_comment _) rfl
  have noted : Holding types h (rungs ++ [r])
      { m with
        trace := m.trace.push (r.fragment.terminal.action ++ " " ++ r.name)
        next := m.next + 1 } := ⟨holding.typed, holding.settled, holding.slots⟩
  cases standard.finish with
  | publishHandle type terminal finish =>
    rw [finish] at ahead
    obtain ⟨m', handle, publish, ahead', source, vars, host, trace, holding'⟩ :=
      publish_handle noted type noOwner there ahead
    refine ⟨m', note.trans publish, ahead', holding', ?_⟩
    exact finished_of_handle holding terminal there source vars host (by rw [trace, terminal]; rfl)
  | dropHandle type terminal finish =>
    rw [finish] at ahead
    obtain ⟨m', handle, drop, ahead', source, vars, host, trace, holding'⟩ :=
      drop_handle noted type ahead
    refine ⟨m', note.trans drop, ahead', holding', ?_⟩
    have mem : r.name ∈ owners types (rungs ++ [r]) := by
      rw [owners_snoc_handle type]
      simp
    refine finished_of_cleanup handle terminal vars host (holding.usable mem source) ?_
      (by rw [trace, terminal]; rfl)
    intro name a there' one
    have free := (sole_of_settled holding.settled there' one).1
    have := refs_le_held m.vars mem a
    rw [handleIn_of_get? source] at this
    omega
  | @publishScalar type declared terminal finish =>
    rw [finish] at ahead
    obtain ⟨m', value, publish, ahead', source, vars, host, trace, holding'⟩ :=
      publish_scalar noted declared there (works ⟨terminal, type, declared⟩) ahead
    refine ⟨m', note.trans publish, ahead', holding', ?_⟩
    exact finished_of_scalar holding terminal there source vars host (by rw [trace, terminal]; rfl)
  | dropScalar declared terminal finish =>
    rw [finish] at ahead
    refine ⟨_, note, ahead, ?_, ?_⟩
    · refine ⟨noted.typed, ?_, noted.slots⟩
      rw [← owners_snoc_scalar declared]
      exact noted.settled
    · exact finished_of_cleanup none terminal rfl rfl (Host.usable_none _)
        (fun _ _ _ _ => rfl) (by rw [terminal]; rfl)

/-- Some rungs are finished on top of others, unless a box fails. -/
theorem finish_rungs {below above : List Rung}
    (standard : ∀ r ∈ above, ∃ label, r.Standard types label)
    (names : ((below ++ above).map Rung.name).Nodup) (slots : ∀ r ∈ above, h.HasSlot r.name)
    (holding : Holding types h (below ++ above) m)
    (works : ∀ r ∈ above, r.Boxes types → m.host.boxingFails = false)
    (at_ : m.ahead code = publication above ++ rest) :
    ∃ m', Forward code m m' ∧ m'.ahead code = rest ∧ Holding types h below m' ∧
      Finished above m m' := by
  induction above using List.reverseRecOn generalizing m with
  | nil => exact ⟨m, .refl m, at_, by simpa using holding, .nil m⟩
  | append_singleton above r ih =>
    have here : r ∈ above ++ [r] := by simp
    rw [← List.append_assoc] at names holding
    have unnamed : r.name ∉ (below ++ above).map Rung.name := by
      rw [List.map_append, List.nodup_append] at names
      exact fun mem => names.2.2 _ mem _ (List.mem_singleton_self _) rfl
    rw [publication_snoc, List.cons_append, List.append_assoc] at at_
    obtain ⟨label, standard_r⟩ := standard r here
    obtain ⟨mid, first, ahead, holding', finished⟩ := finish_rung standard_r unnamed holding
      (holding.slots _ (slots r here)) (works r here) at_
    rw [List.map_append, List.nodup_append] at names
    obtain ⟨m', forward, ahead', holding'', finished'⟩ :=
      ih (fun s mem => standard s (List.mem_append_left _ mem)) names.1
        (fun s mem => slots s (List.mem_append_left _ mem)) holding'
        (fun s mem boxes => by
          rw [finished.boxingFails]
          exact works s (List.mem_append_left _ mem) boxes) ahead
    refine ⟨m', first.trans forward, ahead', holding'', finished.trans finished' fun mem => unnamed ?_⟩
    rw [List.map_append]
    exact List.mem_append_right _ mem

/-- All rungs are finished, and the run ends at the label `done`. -/
theorem finish_all {done : Label} {tail : Block} {i : Nat} (standing : Standing types failed rungs)
    (slots : ∀ r ∈ rungs, h.HasSlot r.name) (holding : Holding types h rungs m)
    (works : ∀ r ∈ rungs, r.Boxes types → m.host.boxingFails = false)
    (position : code.position? done = some i) (target : code.drop i = [.label done])
    (nonempty : tail ≠ []) (at_ : m.ahead code = publication rungs ++ .goto done :: tail) :
    ∃ mid m', Forward code m m' ∧ m'.ahead code = [] ∧ Holding types h [] m' ∧
      Finished rungs m mid ∧ m'.host = mid.host ∧ m'.trace = mid.trace.push (done.text ++ ":") := by
  have standard (r : Rung) (mem : r ∈ rungs) : ∃ label, r.Standard types label := by
    obtain ⟨below, above, split⟩ := List.append_of_mem mem
    exact ⟨_, standing.standard below r above split⟩
  have names : (([] ++ rungs).map Rung.name).Nodup := standing.names
  obtain ⟨mid, forward, ahead, holding', finished⟩ :=
    finish_rungs standard names slots holding works at_
  have landing : (Machine.ahead code { mid with next := i }).length ≤ tail.length := by
    show (code.drop i).length ≤ tail.length
    rw [target]
    exact List.length_pos_iff.2 nonempty
  have jump := Forward.jump ahead (step_goto position) landing
  obtain ⟨pass, ahead'⟩ := Forward.one (m := { mid with next := i }) target (step_label done) rfl
  exact ⟨mid, _, forward.trans (jump.trans pass), ahead',
    ⟨holding'.typed, holding'.settled, holding'.slots⟩, finished, rfl, rfl⟩

/-- The rungs above are finished, then a box fails: its slot is null, and the run goes on
down the ladder below. -/
theorem finish_until_refused {below above : List Rung} {landing : Block} {i : Nat}
    (standing : Standing types failed (below ++ r :: above))
    (slots : ∀ s ∈ below ++ r :: above, h.HasSlot s.name)
    (holding : Holding types h (below ++ r :: above) m) (boxes : r.Boxes types)
    (fails : m.host.boxingFails = true) (none_above : ∀ s ∈ above, ¬ s.Boxes types)
    (position : code.position? (top failed below) = some i) (target : code.drop i = landing)
    (shorter : landing.length ≤ rest.length)
    (at_ : m.ahead code = publication (below ++ r :: above) ++ rest) :
    ∃ mid m' old, Forward code m m' ∧ m'.ahead code = landing ∧ Holding types h below m' ∧
      Finished above m mid ∧ mid.host.slots.get? r.name = some old ∧ m'.vars = mid.vars ∧
      m'.host =
        ((mid.host.adjust old (-1)).report (r.name ++ ": box failed")).setSlot r.name none ∧
      m'.trace = mid.trace.push ("sync " ++ r.name) := by
  have split : below ++ r :: above = (below ++ [r]) ++ above := by simp
  have standard (s : Rung) (mem : s ∈ above) : ∃ label, s.Standard types label := by
    obtain ⟨before, after, rfl⟩ := List.append_of_mem mem
    exact ⟨_, standing.standard (below ++ r :: before) s after (by simp)⟩
  have publication_eq : publication (below ++ r :: above) =
      publication above ++ .comment (r.fragment.terminal.action ++ " " ++ r.name) ::
        (r.fragment.finish ++ publication below) := by
    simp [publication]
  rw [publication_eq, List.append_assoc, List.cons_append, List.append_assoc] at at_
  have names := standing.names
  rw [split] at names holding
  obtain ⟨mid, forward, ahead, holding', finished⟩ := finish_rungs standard names
    (fun s mem => slots s (by simp [mem])) holding (fun s mem boxes => absurd boxes (none_above s mem))
    at_
  obtain ⟨old, there⟩ := holding'.slots r.name (slots r (by simp))
  obtain ⟨sync, type, declared⟩ := boxes
  obtain ⟨note, ahead⟩ := Forward.one ahead (step_comment _) rfl
  cases (standing.standard below r above rfl).finish with
  | publishHandle type' => cases type'.symm.trans declared
  | dropHandle type' => cases type'.symm.trans declared
  | dropScalar _ cleanup => cases cleanup.symm.trans sync
  | publishScalar declared' _ finish =>
    cases declared'.symm.trans declared
    rw [finish] at ahead
    have longer : landing.length ≤ (publication below ++ rest).length := by
      rw [List.length_append]
      omega
    have noted : Holding types h (below ++ [r])
        { mid with
          trace := mid.trace.push (r.fragment.terminal.action ++ " " ++ r.name)
          next := mid.next + 1 } := ⟨holding'.typed, holding'.settled, holding'.slots⟩
    obtain ⟨m', refuse, ahead', vars, host, trace, holding''⟩ :=
      sync_refused noted declared there (finished.boxingFails.trans fails) position
        (target ▸ longer) ahead
    refine ⟨mid, m', old, forward.trans (note.trans refuse), ahead'.trans target, holding'', finished,
      there, vars, host, ?_⟩
    rw [trace, sync]
    rfl

end Plan
end HostBridge
