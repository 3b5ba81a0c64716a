import HostBridge.Heap.Machine

/-!
# References and their count

`refs handle a` is what one handle contributes to the count of the object at `a`. Each
operation on the heap changes counts and holders by such contributions
(`count_adjust`, `holders_setSlot`), and a host is balanced exactly when every count is
the number of its holders (`balance_eq_balanced_iff`).

`Host.Recounted` relates hosts that differ in counts only; the counts then tell them
apart (`Recounted.eq_of_count`).
-/

namespace HostBridge

/-- How many references to an address a handle is: one or none. -/
def refs (handle : Handle) (a : Address) : Nat :=
  if handle = some a then 1 else 0

@[simp] theorem refs_none (a : Address) : refs none a = 0 := rfl

@[simp] theorem refs_self (a : Address) : refs (some a) a = 1 := by
  simp [refs]

theorem refs_of_ne {a b : Address} (ne : a ≠ b) : refs (some a) b = 0 := by
  simp [refs, ne]

namespace Host

/-- The handle is null or points at an object with references left. -/
def Usable (h : Host) (handle : Handle) : Prop :=
  ∀ a, handle = some a → 0 < h.count a

theorem usable_none (h : Host) : h.Usable none := by
  intro a e
  cases e

theorem isLive_of_usable {h : Host} {a : Address} (usable : h.Usable (some a)) :
    h.isLive a = true := by
  simpa [isLive] using usable a rfl

/-- The host with that many references more on what a handle points at. -/
def adjust (h : Host) (handle : Handle) (change : Int) : Host :=
  match handle with
  | some a => h.addToCount a change
  | none => h

/-- There is an object wherever a count is not zero. -/
theorem lt_size_of_count_ne {h : Host} {a : Address} (counted : h.count a ≠ 0) :
    a < h.objects.size := by
  apply Classical.byContradiction
  intro out
  exact counted (by simp [count, Array.getElem?_eq_none (Nat.le_of_not_lt out)])

/-- There are no references where there is no object. -/
theorem count_of_size_le {h : Host} {a : Address} (out : h.objects.size ≤ a) : h.count a = 0 := by
  simp [count, Array.getElem?_eq_none out]

/-- Only the object behind the handle is counted differently. -/
theorem count_adjust {h : Host} {handle : Handle} (usable : h.Usable handle) (change : Int)
    (a : Address) : (h.adjust handle change).count a = h.count a + change * refs handle a := by
  cases handle with
  | none => simp [adjust]
  | some b =>
    have inside : b < h.objects.size := lt_size_of_count_ne (by have := usable b rfl; omega)
    by_cases e : b = a
    · subst e
      simp [adjust, count_addToCount h b b change inside]
    · simp [adjust, refs_of_ne e, count, addToCount, Array.getElem?_modify, e]

/-- Taking a reference makes no handle unusable. -/
theorem Usable.acquire {h : Host} {handle taken : Handle} (usable : h.Usable handle)
    (live : h.Usable taken) : (h.adjust taken 1).Usable handle := by
  intro a e
  have := usable a e
  rw [count_adjust live]
  omega

@[simp] theorem slots_adjust (h : Host) (handle : Handle) (change : Int) :
    (h.adjust handle change).slots = h.slots := by
  cases handle <;> rfl

@[simp] theorem reports_adjust (h : Host) (handle : Handle) (change : Int) :
    (h.adjust handle change).reports = h.reports := by
  cases handle <;> rfl

@[simp] theorem boxingFails_adjust (h : Host) (handle : Handle) (change : Int) :
    (h.adjust handle change).boxingFails = h.boxingFails := by
  cases handle <;> rfl

@[simp] theorem size_adjust (h : Host) (handle : Handle) (change : Int) :
    (h.adjust handle change).objects.size = h.objects.size := by
  cases handle <;> simp [adjust, addToCount]

@[simp] theorem value?_adjust (h : Host) (handle : Handle) (change : Int) (a : Address) :
    (h.adjust handle change).value? a = h.value? a := by
  cases handle with
  | none => rfl
  | some b => exact value?_addToCount h b a change

/-! ## Values -/

@[simp] theorem value?_setSlot (h : Host) (name : String) (handle : Handle) (a : Address) :
    (h.setSlot name handle).value? a = h.value? a := rfl

@[simp] theorem value?_report (h : Host) (text : String) (a : Address) :
    (h.report text).value? a = h.value? a := rfl

@[simp] theorem size_allocate (h : Host) (value : HeapValue) :
    (h.allocate value).objects.size = h.objects.size + 1 := by
  simp [allocate]

/-- The new object is at the end and the others stay where they are. -/
theorem value?_allocate (h : Host) (value : HeapValue) (a : Address) :
    (h.allocate value).value? a = if a = h.objects.size then some value else h.value? a := by
  unfold allocate value?
  by_cases e : a = h.objects.size <;> simp [e, Array.getElem?_push]

theorem value?_eq_none_iff {h : Host} {a : Address} : h.value? a = none ↔ h.objects.size ≤ a := by
  simp [value?]

theorem value?_of_size_le {h : Host} {a : Address} (out : h.objects.size ≤ a) : h.value? a = none :=
  value?_eq_none_iff.2 out

theorem lt_size_of_value? {h : Host} {a : Address} {v : HeapValue} (found : h.value? a = some v) :
    a < h.objects.size := by
  apply Classical.byContradiction
  intro out
  rw [value?_of_size_le (Nat.le_of_not_lt out)] at found
  cases found

/-- There are no references to what is not there yet. -/
theorem refs_of_size_le {h : Host} {handle : Handle} (usable : h.Usable handle) {a : Address}
    (out : h.objects.size ≤ a) : refs handle a = 0 := by
  unfold refs
  split
  · next e =>
    have := usable a e
    rw [count_of_size_le out] at this
    omega
  · rfl

/-- A new object in place of a reference that is given back. -/
theorem count_allocate_adjust {h : Host} {old : Handle} (usable : h.Usable old) (value : HeapValue)
    (a : Address) :
    ((h.adjust old (-1)).allocate value).count a + refs old a =
      h.count a + refs (some h.objects.size) a := by
  rw [count_allocate, size_adjust, count_adjust usable]
  by_cases e : a = h.objects.size
  · rw [e, if_pos rfl, refs_self, refs_of_size_le usable (Nat.le_refl _),
      count_of_size_le (Nat.le_refl _)]
    rfl
  · rw [if_neg e, refs_of_ne (Ne.symm e)]
    omega

/-! ## Slots -/

theorem slot_setSlot (h : Host) (name other : String) (handle : Handle) :
    (h.setSlot name handle).slots.get? other =
      if name = other then some handle else h.slots.get? other :=
  Table.get?_put h.slots name other handle

/-- The number of entries of a table that hold an address. -/
def holdersIn (slots : Table Handle) (a : Address) : Nat :=
  slots.countP fun slot => slot.2 == some a

theorem holders_eq (h : Host) (a : Address) : h.holders a = holdersIn h.slots a := rfl

/-- The slots that hold an object are counted one by one. -/
theorem holdersIn_cons (name : String) (handle : Handle) (rest : Table Handle) (a : Address) :
    holdersIn ((name, handle) :: rest) a = refs handle a + holdersIn rest a := by
  unfold holdersIn refs
  rw [List.countP_cons, Nat.add_comm]
  by_cases e : handle = some a <;> simp [e]

/-- Putting a handle under a name takes away the reference of the handle that was there. -/
theorem holdersIn_put {slots : Table Handle} {name : String} {old : Handle}
    (there : slots.get? name = some old) (new : Handle) (a : Address) :
    holdersIn (slots.put name new) a + refs old a = holdersIn slots a + refs new a := by
  induction slots with
  | nil => cases there
  | cons entry rest ih =>
    obtain ⟨key, handle⟩ := entry
    by_cases e : key = name
    · subst e
      simp only [Table.get?, if_pos] at there
      cases there
      simp only [Table.put, if_pos, holdersIn_cons]
      omega
    · simp only [Table.get?, if_neg e] at there
      simp only [Table.put, if_neg e, holdersIn_cons]
      have := ih there
      omega

/-- Writing a slot moves one holder from the old object to the new one. -/
theorem holders_setSlot {h : Host} {name : String} {old : Handle}
    (there : h.slots.get? name = some old) (new : Handle) (a : Address) :
    (h.setSlot name new).holders a + refs old a = h.holders a + refs new a :=
  holdersIn_put there new a

def HasSlot (h : Host) (name : String) : Prop :=
  ∃ handle, h.slots.get? name = some handle

theorem hasSlot_setSlot {h : Host} {name other : String} {handle : Handle} (has : h.HasSlot other) :
    (h.setSlot name handle).HasSlot other := by
  unfold HasSlot at *
  rw [slot_setSlot]
  split
  · exact ⟨handle, rfl⟩
  · exact has

/-- A slot is among the holders of what it holds. -/
theorem holders_pos {h : Host} {name : String} {a : Address}
    (there : h.slots.get? name = some (some a)) : 0 < h.holders a := by
  have := holders_setSlot there none a
  simp only [refs_none, refs_self] at this
  omega

@[simp] theorem slots_allocate (h : Host) (value : HeapValue) : (h.allocate value).slots = h.slots := rfl

@[simp] theorem holders_allocate (h : Host) (value : HeapValue) (a : Address) :
    (h.allocate value).holders a = h.holders a := rfl

@[simp] theorem slots_report (h : Host) (text : String) : (h.report text).slots = h.slots := rfl

@[simp] theorem holders_report (h : Host) (text : String) (a : Address) :
    (h.report text).holders a = h.holders a := rfl

@[simp] theorem holders_adjust (h : Host) (handle : Handle) (change : Int) (a : Address) :
    (h.adjust handle change).holders a = h.holders a := by
  rw [holders_eq, holders_eq, slots_adjust]

/-! ## Hosts that differ in counts -/

/-- `h'` is `h` with other reference counts. -/
structure Recounted (h h' : Host) : Prop where
  slots : h'.slots = h.slots
  reports : h'.reports = h.reports
  boxingFails : h'.boxingFails = h.boxingFails
  values : ∀ a, h'.value? a = h.value? a

theorem Recounted.refl (h : Host) : h.Recounted h :=
  ⟨rfl, rfl, rfl, fun _ => rfl⟩

/-- Counts may change several times. -/
theorem Recounted.trans {h mid h' : Host} (first : h.Recounted mid) (second : mid.Recounted h') :
    h.Recounted h' :=
  ⟨second.slots.trans first.slots, second.reports.trans first.reports,
    second.boxingFails.trans first.boxingFails,
    fun a => (second.values a).trans (first.values a)⟩

theorem recounted_adjust (h : Host) (handle : Handle) (change : Int) :
    h.Recounted (h.adjust handle change) :=
  ⟨slots_adjust .., reports_adjust .., boxingFails_adjust .., value?_adjust h handle change⟩

theorem Recounted.report {h h' : Host} (same : h.Recounted h') (text : String) :
    (h.report text).Recounted (h'.report text) :=
  ⟨same.slots, congrArg (·.push text) same.reports, same.boxingFails, same.values⟩

theorem Recounted.holders {h h' : Host} (same : h.Recounted h') (a : Address) :
    h'.holders a = h.holders a := by
  rw [holders_eq, holders_eq, same.slots]

/-- An object is its value and its count. -/
theorem getElem?_objects (h : Host) (a : Address) :
    h.objects[a]? = (h.value? a).map fun v => ⟨v, h.count a⟩ := by
  unfold value? count
  cases h.objects[a]? <;> rfl

/-- Once the counts agree as well, nothing is left to differ. -/
theorem Recounted.eq_of_count {h h' : Host} (same : h.Recounted h')
    (counts : ∀ a, h'.count a = h.count a) : h' = h := by
  have objects : h'.objects = h.objects := by
    apply Array.ext_getElem?
    intro a
    rw [getElem?_objects, getElem?_objects, same.values, counts]
  obtain ⟨_, _, _, _⟩ := h
  obtain ⟨_, _, _, _⟩ := h'
  obtain ⟨slots, reports, boxingFails, -⟩ := same
  simp_all

/-! ## Balance -/

/-- No slot dangles if each one leads to an object that is counted. -/
theorem danglingSlots_eq_nil_iff (h : Host) :
    h.danglingSlots = [] ↔ ∀ slot ∈ h.slots, ∀ a, slot.2 = some a → h.count a ≠ 0 := by
  unfold danglingSlots
  rw [List.filterMap_eq_nil_iff]
  constructor
  · intro none slot mem a e dead
    have := none slot mem
    simp [e, dead] at this
  · intro live slot mem
    cases e : slot.2 with
    | none => rfl
    | some a => simp [live slot mem a e]

/-- Nothing is miscounted from an address on if all counts from there on are those of the holders.
-/
theorem miscountFrom?_eq_none_iff (h : Host) (objects : List HeapObject) (a : Address) :
    h.miscountFrom? a objects = none ↔ ∀ (i : Nat) (object : HeapObject),
      objects[i]? = some object → object.count = h.holders (a + i) := by
  induction objects generalizing a with
  | nil => simp [miscountFrom?]
  | cons object rest ih =>
    rw [miscountFrom?]
    split
    · next counted =>
      rw [ih]
      constructor
      · intro all i o found
        cases i with
        | zero => cases found; exact counted
        | succ i => rw [all i o found, Nat.add_right_comm, Nat.add_assoc]
      · intro all i o found
        rw [all (i + 1) o found, Nat.add_right_comm, Nat.add_assoc]
    · next miscounted =>
      constructor
      · intro e; cases e
      · intro all
        exact absurd (all 0 object rfl) miscounted

/-- Only a slot makes a holder. -/
theorem holders_eq_zero {h : Host} {a : Address} (free : ∀ slot ∈ h.slots, slot.2 ≠ some a) :
    h.holders a = 0 := by
  unfold holders
  rw [List.countP_eq_zero]
  intro slot mem
  simpa using free slot mem

theorem holders_pos_of_mem {h : Host} {a : Address} {slot : String × Handle} (mem : slot ∈ h.slots)
    (held : slot.2 = some a) : 0 < h.holders a := by
  unfold holders
  rw [List.countP_pos_iff]
  exact ⟨slot, mem, by simp [held]⟩

/-- A host is balanced when each count is the number of slots that hold the object. -/
theorem balance_eq_balanced_iff (h : Host) :
    h.balance = .balanced ↔ ∀ a, h.count a = h.holders a := by
  have key : h.balance = .balanced ↔
      h.danglingSlots = [] ∧ h.miscountFrom? 0 h.objects.toList = none := by
    unfold balance
    split
    · next dangling => simp [dangling]
    · next clean =>
      split
      · next found => simp [found]
      · next counted => simp [clean, counted]
  rw [key, danglingSlots_eq_nil_iff, miscountFrom?_eq_none_iff]
  constructor
  · rintro ⟨live, counted⟩ a
    by_cases inside : a < h.objects.size
    · have := counted a h.objects[a] (by simp [inside])
      simpa [count, inside] using this
    · have zero := count_of_size_le (Nat.le_of_not_lt inside)
      rw [zero, holders_eq_zero fun slot mem e => live slot mem a e zero]
      rfl
  · intro all
    refine ⟨fun slot mem a e dead => ?_, fun i object found => ?_⟩
    · have := holders_pos_of_mem mem e
      have := all a
      omega
    · have := all i
      have found' : h.objects[i]? = some object := by simpa using found
      simpa [count, found'] using this

end Host
end HostBridge
