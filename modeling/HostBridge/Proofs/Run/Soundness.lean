import HostBridge.Proofs.Heap.References
import HostBridge.Proofs.Run.Steps

/-!
# What no code can do to a host

Any block may run, whether a region's or not, and it may end in any fault. It never looks
outside the heap, and it leaves a host whose counts are not negative and whose slots lead to
objects. Objects stay where they are and what they are; those that were freed stay freed
(`Host.run_sound`).

The invariant is joint over slots and variables, since both keep handles (`Machine.Sound`). A
fault leaves the host as a statement has made it by then, so a statement is judged by what it
leaves in either case (`Machine.Leaves`). Which object a statement looks at is
`Machine.looksAt?`: it makes no difference to a run what the others are (`Host.run_overwrite`).
-/

namespace HostBridge

namespace Table

variable {α : Type} {P Q : α → Prop} {t : Table α} {name : String} {a : α}

/-- All entries are of that sort. -/
def All (P : α → Prop) (t : Table α) : Prop :=
  ∀ entry ∈ t, P entry.2

theorem All.mono (all : t.All P) (weaker : ∀ a, P a → Q a) : t.All Q :=
  fun entry mem => weaker entry.2 (all entry mem)

theorem All.get? (all : t.All P) (there : t.get? name = some a) : P a := by
  induction t with
  | nil => cases there
  | cons entry rest ih =>
    obtain ⟨key, b⟩ := entry
    rw [Table.get?] at there
    split at there
    · cases there
      exact all _ (List.mem_cons_self ..)
    · exact ih (fun entry mem => all entry (List.mem_cons_of_mem _ mem)) there

/-- Writing an entry of that sort leaves a table of such entries. -/
theorem All.put (all : t.All P) (holds : P a) : (t.put name a).All P := by
  induction t with
  | nil =>
    intro entry mem
    cases List.mem_singleton.1 mem
    exact holds
  | cons entry rest ih =>
    obtain ⟨key, b⟩ := entry
    rw [Table.put]
    split
    · intro entry mem
      rcases List.mem_cons.1 mem with rfl | mem
      · exact holds
      · exact all entry (List.mem_cons_of_mem _ mem)
    · intro entry mem
      rcases List.mem_cons.1 mem with rfl | mem
      · exact all (key, b) (List.mem_cons_self ..)
      · exact ih (fun entry mem => all entry (List.mem_cons_of_mem _ mem)) entry mem

/-- A name that is there is not added again. -/
theorem names_put (there : t.get? name = some a) (b : α) :
    (t.put name b).map Prod.fst = t.map Prod.fst := by
  induction t with
  | nil => cases there
  | cons entry rest ih =>
    obtain ⟨key, c⟩ := entry
    rw [Table.get?] at there
    rw [Table.put]
    by_cases same : key = name
    · rw [if_pos same]
      rfl
    · rw [if_neg same] at there ⊢
      rw [List.map_cons, List.map_cons, ih there]

end Table

/-! ## Hosts -/

namespace Host

/-- The handle is null or points at an object of the heap, freed or not. -/
def Inside (h : Host) (handle : Handle) : Prop :=
  ∀ a, handle = some a → a < h.objects.size

theorem inside_none (h : Host) : h.Inside none := by
  intro a e
  cases e

/-- Counts are not negative, and slots lead to objects. -/
structure Sound (h : Host) : Prop where
  counts : ∀ a, 0 ≤ h.count a
  slots : h.slots.All h.Inside

/-- What stays of a host, whatever happens to it. -/
structure Kept (h h' : Host) : Prop where
  names : h'.slots.map Prod.fst = h.slots.map Prod.fst
  size : h.objects.size ≤ h'.objects.size
  values : ∀ a < h.objects.size, h'.value? a = h.value? a
  /-- A freed object is not used again. -/
  freed : ∀ a < h.objects.size, h.count a = 0 → h'.count a = 0
  reports : h.reports.toList <+: h'.reports.toList

variable {h mid h' : Host}

theorem Kept.refl (h : Host) : h.Kept h where
  names := rfl
  size := Nat.le_refl _
  values := fun _ _ => rfl
  freed := fun _ _ none_left => none_left
  reports := List.prefix_refl _

theorem Kept.trans (first : h.Kept mid) (second : mid.Kept h') : h.Kept h' where
  names := second.names.trans first.names
  size := Nat.le_trans first.size second.size
  values := by
    intro a inside
    rw [second.values a (Nat.lt_of_lt_of_le inside first.size), first.values a inside]
  freed := by
    intro a inside none_left
    exact second.freed a (Nat.lt_of_lt_of_le inside first.size) (first.freed a inside none_left)
  reports := first.reports.trans second.reports

/-- No handle is left outside, since the heap only grows. -/
theorem Inside.kept {handle : Handle} (inside : h.Inside handle) (kept : h.Kept h') :
    h'.Inside handle :=
  fun a e => Nat.lt_of_lt_of_le (inside a e) kept.size

/-! ### Operations -/

/-- A count is changed only of an object that is alive, so a freed one stays freed. -/
theorem kept_addToCount {a : Address} (live : h.isLive a = true) (change : Int) :
    h.Kept (h.addToCount a change) where
  names := rfl
  size := by simp [addToCount]
  values := fun b _ => value?_addToCount h a b change
  freed := by
    intro b inside none_left
    have ne : a ≠ b := by
      rintro rfl
      simp [isLive, none_left] at live
    rw [count_addToCount h a b change inside, if_neg ne, none_left]
  reports := List.prefix_refl _

/-- A count that is positive may be lowered by one. -/
theorem sound_addToCount (sound : h.Sound) {a : Address} (live : h.isLive a = true) {change : Int}
    (least : -1 ≤ change) : (h.addToCount a change).Sound where
  counts := by
    intro b
    by_cases inside : b < h.objects.size
    · have before := sound.counts b
      rw [count_addToCount h a b change inside]
      split
      · next same =>
        subst same
        have counted : 0 < h.count a := by simpa [isLive] using live
        omega
      · exact before
    · have out := count_of_size_le (h := h.addToCount a change) (by simpa [addToCount] using inside)
      exact Int.le_of_eq out.symm
  slots := sound.slots.mono fun _ inside => inside.kept (kept_addToCount live change)

/-- A slot is written only where there is one, so no name is added. -/
theorem kept_setSlot {name : String} {old : Handle} (there : h.slots.get? name = some old)
    (handle : Handle) : h.Kept (h.setSlot name handle) where
  names := Table.names_put there handle
  size := Nat.le_refl _
  values := fun _ _ => rfl
  freed := fun _ _ none_left => none_left
  reports := List.prefix_refl _

theorem sound_setSlot (sound : h.Sound) {name : String} {handle : Handle}
    (inside : h.Inside handle) : (h.setSlot name handle).Sound where
  counts := sound.counts
  slots := sound.slots.put inside

theorem kept_allocate (h : Host) (value : HeapValue) : h.Kept (h.allocate value) where
  names := rfl
  size := by
    rw [size_allocate]
    omega
  values := by
    intro a inside
    rw [value?_allocate, if_neg (Nat.ne_of_lt inside)]
  freed := by
    intro a inside none_left
    rw [count_allocate, if_neg (Nat.ne_of_lt inside), none_left]
  reports := List.prefix_refl _

/-- A new object has one reference, and the slots lead to the old ones. -/
theorem sound_allocate (sound : h.Sound) (value : HeapValue) : (h.allocate value).Sound where
  counts := by
    intro a
    rw [count_allocate]
    split
    · decide
    · exact sound.counts a
  slots := sound.slots.mono fun _ inside => inside.kept (kept_allocate h value)

theorem kept_report (h : Host) (text : String) : h.Kept (h.report text) where
  names := rfl
  size := Nat.le_refl _
  values := fun _ _ => rfl
  freed := fun _ _ none_left => none_left
  reports := by
    simp [report]

theorem sound_report (sound : h.Sound) (text : String) : (h.report text).Sound :=
  ⟨sound.counts, sound.slots⟩

/-! ### Other objects -/

/-- Another object in place of the one at an address. -/
def overwrite (h : Host) (b : Address) (o : HeapObject) : Host :=
  { h with objects := h.objects.setIfInBounds b o }

theorem size_overwrite (h : Host) (b : Address) (o : HeapObject) :
    (h.overwrite b o).objects.size = h.objects.size := by
  simp [overwrite]

theorem getElem?_overwrite {a b : Address} {o : HeapObject} (ne : a ≠ b) :
    (h.overwrite b o).objects[a]? = h.objects[a]? :=
  Array.getElem?_setIfInBounds_ne ne.symm

theorem isLive_overwrite {a b : Address} {o : HeapObject} (ne : a ≠ b) :
    (h.overwrite b o).isLive a = h.isLive a := by
  unfold isLive count
  rw [getElem?_overwrite ne]

theorem value?_overwrite {a b : Address} {o : HeapObject} (ne : a ≠ b) :
    (h.overwrite b o).value? a = h.value? a := by
  unfold value?
  rw [getElem?_overwrite ne]

/-- Counting another object and overwriting this one may be done in either order. -/
theorem addToCount_overwrite {a b : Address} {o : HeapObject} {change : Int} (ne : a ≠ b) :
    (h.overwrite b o).addToCount a change = (h.addToCount a change).overwrite b o := by
  unfold addToCount overwrite
  congr 1
  apply Array.ext_getElem?
  intro i
  by_cases here : a = i
  · subst here
    simp [Array.getElem?_modify, ne.symm]
  · simp [Array.getElem?_modify, Array.getElem?_setIfInBounds, here]

/-- A new object has the same address whatever object is overwritten. -/
theorem allocate_overwrite {b : Address} {o : HeapObject} {value : HeapValue}
    (inside : b < h.objects.size) :
    (h.overwrite b o).allocate value = (h.allocate value).overwrite b o := by
  unfold allocate overwrite
  congr 1
  apply Array.ext_getElem?
  intro i
  simp only [Array.getElem?_push, Array.getElem?_setIfInBounds, Array.size_setIfInBounds,
    Array.size_push]
  grind

end Host

/-! ## Machines -/

/-- A handle in a variable is inside the heap. -/
def VarContent.Inside (h : Host) : VarContent → Prop
  | handle x => h.Inside x
  | scalar _ => True

theorem VarContent.Inside.kept {h h' : Host} {content : VarContent} (inside : content.Inside h)
    (kept : h.Kept h') : content.Inside h' := by
  cases content with
  | handle x => exact Host.Inside.kept inside kept
  | scalar _ => trivial

namespace Machine

/-- The host is sound, and variables lead to objects as slots do. -/
structure Sound (m : Machine) : Prop where
  host : m.host.Sound
  vars : m.vars.All (VarContent.Inside m.host)

/-- A sound state on the way from a host on. -/
structure After (h : Host) (m : Machine) : Prop where
  sound : m.Sound
  kept : h.Kept m.host

/-- What is left behind, by an end or by a fault. -/
def Leaves (h : Host) : Except Crash Machine → Prop
  | .ok m => After h m
  | .error crash => crash.host.Sound ∧ h.Kept crash.host

variable {h : Host} {m m' : Machine} {code : Block}

theorem After.advance (after : After h m) : After h m.advance :=
  ⟨⟨after.sound.host, after.sound.vars⟩, after.kept⟩

theorem After.pass (after : After h m) (entry : String) : After h (m.pass entry) :=
  ⟨⟨after.sound.host, after.sound.vars⟩, after.kept⟩

/-- What follows on a state for the host alone follows for the machine: the handles in variables
stay inside. -/
theorem After.withHost (after : After h m) {next : Host} (sound : next.Sound)
    (kept : m.host.Kept next) : After h { m with host := next } where
  sound := ⟨sound, after.sound.vars.mono fun _ inside => inside.kept kept⟩
  kept := after.kept.trans kept

theorem After.put (after : After h m) (var : String) {content : VarContent}
    (inside : content.Inside m.host) : After h { m with vars := m.vars.put var content } where
  sound := ⟨after.sound.host, after.sound.vars.put inside⟩
  kept := after.kept

/-! ### Parts of statements -/

/-- A handle that is read leads into the heap, be it from a variable or from a slot. -/
theorem After.inside (after : After h m) {place : Place} {handle : Handle}
    (read : m.readHandle place = .ok handle) : m.host.Inside handle := by
  cases place with
  | native var =>
    unfold readHandle at read
    dsimp only at read
    split at read
    · next there =>
      cases read
      exact after.sound.vars.get? there
    · cases read
    · cases read
  | host name =>
    unfold readHandle at read
    dsimp only at read
    split at read
    · next there =>
      cases read
      exact after.sound.host.slots.get? there
    · cases read

/-- A handle that leads into the heap may be written anywhere. That the variable is one for handles,
or that there is such a slot, has been checked. -/
theorem After.writeHandle (after : After h m) {place : Place} {handle : Handle}
    (inside : m.host.Inside handle) (write : m.writeHandle place handle = .ok m') : After h m' := by
  cases place with
  | native var =>
    unfold Machine.writeHandle at write
    dsimp only at write
    split at write
    · cases write
      exact after.put var inside
    · cases write
    · cases write
  | host name =>
    unfold Machine.writeHandle at write
    dsimp only at write
    split at write
    · next there =>
      cases write
      exact after.withHost (Host.sound_setSlot after.sound.host inside)
        (Host.kept_setSlot there handle)
    · cases write

theorem After.writeScalar (after : After h m) {var : String} {value : Literal}
    (write : m.writeScalar var value = .ok m') : After h m' := by
  unfold Machine.writeScalar at write
  split at write
  · split at write
    · cases write
      exact after.put var trivial
    · cases write
  · cases write
  · cases write

/-- A reference is taken to nothing, or to an object that is alive. -/
theorem After.acquire (after : After h m) {handle : Handle} (acquire : m.acquire handle = .ok m') :
    After h m' := by
  unfold Machine.acquire at acquire
  split at acquire
  · cases acquire
    exact after
  · split at acquire
    · next live =>
      cases acquire
      exact after.withHost (Host.sound_addToCount after.sound.host live (by decide))
        (Host.kept_addToCount live 1)
    · cases acquire

/-- A reference is given back to an object that is alive, so its count was positive. -/
theorem After.giveBack (after : After h m) {handle : Handle}
    (giveBack : m.giveBack handle = .ok m') : After h m' := by
  unfold Machine.giveBack at giveBack
  split at giveBack
  · cases giveBack
    exact after
  · split at giveBack
    · next live =>
      cases giveBack
      exact after.withHost (Host.sound_addToCount after.sound.host live (by decide))
        (Host.kept_addToCount live (-1))
    · cases giveBack

theorem After.report (after : After h m) (text : String) :
    After h { m with host := m.host.report text } :=
  after.withHost (Host.sound_report after.sound.host text) (Host.kept_report m.host text)

theorem After.allocate (after : After h m) (value : HeapValue) :
    After h { m with host := m.host.allocate value } :=
  after.withHost (Host.sound_allocate after.sound.host value) (Host.kept_allocate m.host value)

/-! ### Statements and runs -/

/-- Going on after something that can fail: a failure leaves the host as it is. -/
theorem After.leaves_bind {α : Type} (after : After h m) {x : Except Fault α}
    {f : α → Except Crash Machine} (onward : ∀ a, x = .ok a → Leaves h (f a)) :
    Leaves h (m.attempt x >>= f) := by
  cases x with
  | ok a => exact onward a rfl
  | error fault => exact ⟨after.sound.host, after.kept⟩

/-- A jump touches no host, whether it finds its label or not. -/
theorem After.leaves_jump (after : After h m) (target : Label) :
    Leaves h (m.attempt (m.jump code target)) := by
  unfold Machine.jump
  split
  · exact ⟨⟨after.sound.host, after.sound.vars⟩, after.kept⟩
  · exact ⟨after.sound.host, after.kept⟩

/-- A statement leaves a sound host, whether it succeeds or not. A box has changed the heap before
its place turns out not to be there, and a mismatch is reported before the label turns out not to
be. -/
theorem After.leaves_step (after : After h m) (code : Block) (s : Stmt) :
    Leaves h (m.step code s) := by
  cases s with
  | comment text => exact (after.pass text).advance
  | label l => exact (after.pass _).advance
  | declare var type =>
    refine (after.put var ?_).advance
    cases type with
    | handle => exact Host.inside_none m.host
    | scalar type => trivial
  | incRef place =>
    apply after.leaves_bind
    intro handle _
    apply after.leaves_bind
    intro mid acquire
    exact (after.acquire acquire).advance
  | decRef place =>
    apply after.leaves_bind
    intro handle _
    apply after.leaves_bind
    intro mid giveBack
    exact (after.giveBack giveBack).advance
  | assign dst src =>
    apply after.leaves_bind
    intro handle read
    apply after.leaves_bind
    intro mid write
    exact (after.writeHandle (after.inside read) write).advance
  | clear place =>
    apply after.leaves_bind
    intro mid write
    exact (after.writeHandle (Host.inside_none m.host) write).advance
  | store var value =>
    apply after.leaves_bind
    intro mid write
    exact (after.writeScalar write).advance
  | unbox dst src type fail =>
    apply after.leaves_bind
    intro handle _
    apply after.leaves_bind
    intro value? _
    cases value? with
    | none => exact (after.report _).leaves_jump fail
    | some value =>
      apply after.leaves_bind
      intro mid write
      exact (after.writeScalar write).advance
  | box dst src type =>
    apply after.leaves_bind
    intro value _
    dsimp only
    split
    · have reported := after.report (src ++ ": box failed")
      apply reported.leaves_bind
      intro mid write
      exact (reported.writeHandle (Host.inside_none _) write).advance
    · have allocated := after.allocate (.scalar value)
      apply allocated.leaves_bind
      intro mid write
      refine (allocated.writeHandle ?_ write).advance
      intro a e
      cases e
      simp
  | gotoIfNull place target =>
    apply after.leaves_bind
    intro handle _
    cases handle with
    | none => exact after.leaves_jump target
    | some a => exact after.advance
  | goto target => exact after.leaves_jump target

/-- So does a run, whatever ends it. -/
theorem After.leaves_runFor (after : After h m) (code : Block) (fuel : Nat) :
    Leaves h (m.runFor code fuel) := by
  fun_induction runFor code fuel m with
  | case1 fuel m halted => exact after
  | case2 m s fetch => exact ⟨after.sound.host, after.kept⟩
  | case3 m s fetch fuel mid run ih =>
    have left := after.leaves_step code s
    rw [run] at left
    exact ih left
  | case4 m s fetch fuel crash run =>
    have left := after.leaves_step code s
    rw [run] at left
    exact left

/-- All states on the way of a run are sound. -/
theorem After.steps (after : After h m) {n : Nat} (steps : Steps code n m m') : After h m' := by
  induction steps with
  | refl => exact after
  | @step _ _ _ _ s _ run _ ih =>
    have left := after.leaves_step code s
    rw [run] at left
    exact ih left

/-- A run starts without variables. -/
theorem after_start (sound : h.Sound) : After h (start h) where
  sound := ⟨sound, fun _ mem => nomatch mem⟩
  kept := Host.Kept.refl h

/-! ## What a statement looks at -/

/-- The object that a statement looks at, or whose count it changes. -/
def looksAt? (m : Machine) : Stmt → Option Address
  | .incRef place | .decRef place | .unbox _ place _ _ =>
    match m.readHandle place with
    | .ok handle => handle
    | .error _ => none
  | _ => none

/-- In a sound state, no statement looks outside the heap. -/
theorem After.lt_size_of_looksAt (after : After h m) {s : Stmt} {a : Address}
    (looks : m.looksAt? s = some a) : a < m.host.objects.size := by
  have read (place : Place) (looks : (match m.readHandle place with
      | .ok handle => handle
      | .error _ => none) = some a) : a < m.host.objects.size := by
    split at looks
    · next read => exact after.inside read a looks
    · cases looks
  cases s with
  | incRef place => exact read place looks
  | decRef place => exact read place looks
  | unbox dst place type fail => exact read place looks
  | _ => cases looks

/-- The machine with another object in place of the one at an address. -/
def overwrite (b : Address) (o : HeapObject) (m : Machine) : Machine :=
  { m with host := m.host.overwrite b o }

theorem host_overwrite (b : Address) (o : HeapObject) :
    (m.overwrite b o).host = m.host.overwrite b o := rfl

/-- The same of what a statement leaves. -/
def overwritten (b : Address) (o : HeapObject) : Except Crash Machine → Except Crash Machine
  | .ok m => .ok (m.overwrite b o)
  | .error crash => .error { crash with host := crash.host.overwrite b o }

section Overwritten

variable {b : Address} {o : HeapObject}

/-- Two computations that differ by the overwritten object go on doing so. -/
theorem overwritten_bind {α : Type} {g : α → α} {x y : Except Fault α}
    {f k : α → Except Crash Machine} (same : y = x.map g)
    (onward : ∀ a, x = .ok a → k (g a) = overwritten b o (f a)) :
    ((m.overwrite b o).attempt y >>= k) = overwritten b o (m.attempt x >>= f) := by
  subst same
  cases x with
  | ok a => exact onward a rfl
  | error fault => rfl

theorem map_id_eq {α : Type} (x : Except Fault α) : x = x.map id := by
  cases x <;> rfl

/-- Handles are read from variables and slots, not from objects. -/
theorem readHandle_overwrite (place : Place) :
    (m.overwrite b o).readHandle place = (m.readHandle place).map id := by
  rw [← map_id_eq]
  cases place <;> rfl

theorem writeHandle_overwrite (place : Place) (handle : Handle) :
    (m.overwrite b o).writeHandle place handle =
      (m.writeHandle place handle).map (overwrite b o) := by
  cases place with
  | native var =>
    unfold writeHandle
    dsimp only [overwrite]
    split <;> rfl
  | host name =>
    unfold writeHandle
    dsimp only [overwrite, Host.overwrite]
    split <;> rfl

theorem writeScalar_overwrite (var : String) (value : Literal) :
    (m.overwrite b o).writeScalar var value = (m.writeScalar var value).map (overwrite b o) := by
  unfold writeScalar
  dsimp only [overwrite]
  split
  · split <;> rfl
  · rfl
  · rfl

theorem overwritten_jump (target : Label) :
    (m.overwrite b o).attempt ((m.overwrite b o).jump code target) =
      overwritten b o (m.attempt (m.jump code target)) := by
  unfold jump
  cases code.position? target <;> rfl

/-- A reference to another object is taken in the same way. -/
theorem acquire_overwrite {handle : Handle} (other : handle ≠ some b) :
    (m.overwrite b o).acquire handle = (m.acquire handle).map (overwrite b o) := by
  cases handle with
  | none => rfl
  | some a =>
    have ne : a ≠ b := fun e => other (congrArg some e)
    unfold acquire
    simp only [host_overwrite, Host.isLive_overwrite ne, Host.addToCount_overwrite ne]
    split <;> rfl

theorem giveBack_overwrite {handle : Handle} (other : handle ≠ some b) :
    (m.overwrite b o).giveBack handle = (m.giveBack handle).map (overwrite b o) := by
  cases handle with
  | none => rfl
  | some a =>
    have ne : a ≠ b := fun e => other (congrArg some e)
    unfold giveBack
    simp only [host_overwrite, Host.isLive_overwrite ne, Host.addToCount_overwrite ne]
    split <;> rfl

/-- The value of another object is the same. -/
theorem unboxed?_overwrite {handle : Handle} (other : handle ≠ some b) (type : ScalarType) :
    (m.overwrite b o).unboxed? handle type = (m.unboxed? handle type).map id := by
  rw [← map_id_eq]
  cases handle with
  | none => rfl
  | some a =>
    have ne : a ≠ b := fun e => other (congrArg some e)
    unfold unboxed?
    simp only [host_overwrite, Host.isLive_overwrite ne, Host.value?_overwrite ne]

theorem ne_of_looksAt {place : Place} {handle : Handle} (read : m.readHandle place = .ok handle)
    (other : (match m.readHandle place with
      | .ok handle => handle
      | .error _ => none) ≠ some b) : handle ≠ some b := by
  rwa [read] at other

/-- Objects that a statement does not look at make no difference to what it does. -/
theorem step_overwrite {s : Stmt} (inside : b < m.host.objects.size)
    (other : m.looksAt? s ≠ some b) :
    (m.overwrite b o).step code s = overwritten b o (m.step code s) := by
  cases s with
  | comment text => rfl
  | label l => rfl
  | declare var type => rfl
  | incRef place =>
    apply overwritten_bind (readHandle_overwrite place)
    intro handle read
    apply overwritten_bind (acquire_overwrite (ne_of_looksAt read other))
    intro mid _
    rfl
  | decRef place =>
    apply overwritten_bind (readHandle_overwrite place)
    intro handle read
    apply overwritten_bind (giveBack_overwrite (ne_of_looksAt read other))
    intro mid _
    rfl
  | assign dst src =>
    apply overwritten_bind (readHandle_overwrite src)
    intro handle _
    apply overwritten_bind (writeHandle_overwrite dst handle)
    intro mid _
    rfl
  | clear place =>
    apply overwritten_bind (writeHandle_overwrite place none)
    intro mid _
    rfl
  | store var value =>
    apply overwritten_bind (writeScalar_overwrite var value)
    intro mid _
    rfl
  | unbox dst src type fail =>
    apply overwritten_bind (readHandle_overwrite src)
    intro handle read
    apply overwritten_bind (unboxed?_overwrite (ne_of_looksAt read other) type)
    intro value? _
    cases value? with
    | none => exact overwritten_jump (m := { m with host := m.host.report _ }) fail
    | some value =>
      apply overwritten_bind (writeScalar_overwrite dst value)
      intro mid _
      rfl
  | box dst src type =>
    apply overwritten_bind (map_id_eq (m.readScalar src type))
    intro value _
    dsimp only [id]
    simp only [host_overwrite, Host.size_overwrite, Host.allocate_overwrite inside]
    have fails : (m.host.overwrite b o).boxingFails = m.host.boxingFails := rfl
    rw [fails]
    split
    · have reported : { m.overwrite b o with
            host := (m.host.overwrite b o).report (src ++ ": box failed") } =
          overwrite b o { m with host := m.host.report (src ++ ": box failed") } := rfl
      rw [reported]
      apply overwritten_bind (writeHandle_overwrite dst none)
      intro mid _
      rfl
    · have allocated : { m.overwrite b o with
            host := (m.host.allocate (.scalar value)).overwrite b o } =
          overwrite b o { m with host := m.host.allocate (.scalar value) } := rfl
      rw [allocated]
      apply overwritten_bind (writeHandle_overwrite dst (some m.host.objects.size))
      intro mid _
      rfl
  | gotoIfNull place target =>
    apply overwritten_bind (readHandle_overwrite place)
    intro handle _
    cases handle with
    | none => exact overwritten_jump target
    | some a => rfl
  | goto target => exact overwritten_jump target

/-- An object that no statement on the way looks at makes no difference to a run. The heap only
grows on the way, so the object stays inside of it. -/
theorem After.runFor_overwrite (after : After h m) (inside : b < h.objects.size) (fuel : Nat)
    (unseen : ∀ n m' s, Steps code n m m' → code[m'.next]? = some s → m'.looksAt? s ≠ some b) :
    (m.overwrite b o).runFor code fuel = overwritten b o (m.runFor code fuel) := by
  have step {m : Machine} {s : Stmt} (after : After h m) (unseen : m.looksAt? s ≠ some b) :
      (m.overwrite b o).step code s = overwritten b o (m.step code s) :=
    step_overwrite (Nat.lt_of_lt_of_le inside after.kept.size) unseen
  fun_induction runFor code fuel m with
  | case1 fuel m halted => exact runFor_halted halted
  | case2 m s fetch => exact runFor_zero fetch
  | case3 m s fetch fuel mid run ih =>
    have same := step after (unseen 0 m s (.refl m) fetch)
    have left := after.leaves_step code s
    rw [run] at same left
    rw [runFor_succ (m := m.overwrite b o) fetch same]
    exact ih left fun n m' s' steps => unseen (n + 1) m' s' (.step fetch run steps)
  | case4 m s fetch fuel crash run =>
    have same := step after (unseen 0 m s (.refl m) fetch)
    rw [run] at same
    exact runFor_crash fetch same

end Overwritten

end Machine

/-- A run is the same whatever object stands at an address that it does not look at, and leaves it
there: the outcome, and all else of the host. So `Machine.looksAt?` names every object that a
statement depends on. -/
theorem Host.run_overwrite {h h' : Host} {code : Block} {outcome : Except Fault (Array String)}
    {b : Address} (o : HeapObject) (sound : h.Sound) (inside : b < h.objects.size)
    (unseen : ∀ n m s, Machine.Steps code n (Machine.start h) m → code[m.next]? = some s →
      m.looksAt? s ≠ some b)
    (run : h.run code = (outcome, h')) :
    (h.overwrite b o).run code = (outcome, h'.overwrite b o) := by
  have same : (Machine.start (h.overwrite b o)).runFor code stepLimit =
      Machine.overwritten b o ((Machine.start h).runFor code stepLimit) :=
    (Machine.after_start sound).runFor_overwrite inside stepLimit unseen
  unfold Host.run at run ⊢
  rw [same]
  cases ends : (Machine.start h).runFor code stepLimit with
  | ok m =>
    rw [ends] at run
    cases run
    rfl
  | error crash =>
    rw [ends] at run
    cases run
    rfl

/-- Whatever block runs on a sound host, it looks at objects of the heap only. However the run
ends, it leaves a sound host, and of the host before it the names of the slots, every object with
its value, every freed object as such, and all reports. To look at an object is meant in the sense of
`Machine.looksAt?`, which leaves out no object that could make a difference: what stands at other
addresses changes neither a statement (`Machine.step_overwrite`) nor the run (`Host.run_overwrite`). -/
theorem Host.run_sound {h h' : Host} {code : Block} {outcome : Except Fault (Array String)}
    (sound : h.Sound) (run : h.run code = (outcome, h')) :
    (∀ n m s a, Machine.Steps code n (Machine.start h) m → code[m.next]? = some s →
      m.looksAt? s = some a → a < m.host.objects.size) ∧ h'.Sound ∧ h.Kept h' := by
  have start := Machine.after_start sound
  constructor
  · intro n m s a steps _ looks
    exact (start.steps steps).lt_size_of_looksAt looks
  · have left := start.leaves_runFor code stepLimit
    unfold Host.run at run
    split at run
    · next ends =>
      cases run
      rw [ends] at left
      exact ⟨left.sound.host, left.kept⟩
    · next ends =>
      cases run
      rw [ends] at left
      exact left

/-- A host with one object left, to which a slot leads, and a slot that leads to a freed one. -/
def halfFreed : Host :=
  ⟨#[⟨.foreign 7, 1⟩, ⟨.scalar (.int 3), 0⟩], [("a", some 0), ("n", some 1)], #[], false⟩

/-- Takes the slot's object its last reference, and fails with a new one made. -/
def boxToNowhere : Block :=
  [.declare "x" (.scalar .int64), .decRef (.host "a"), .box (.host "b") "x" .int64]

/-- Both objects are there still, freed, and a third one to which nothing leads. -/
theorem halfFreed_run_sound :
    ∃ h', halfFreed.run boxToNowhere = (.error (.unknownVariable "b"), h') ∧
      h' = ⟨#[⟨.foreign 7, 0⟩, ⟨.scalar (.int 3), 0⟩, ⟨.scalar (.int 0), 1⟩],
        [("a", some 0), ("n", some 1)], #[], false⟩ ∧ h'.Sound ∧ halfFreed.Kept h' := by
  have sound : halfFreed.Sound := by
    constructor
    · intro a
      rcases a with _ | _ | a
      · decide
      · decide
      · exact Int.le_of_eq (Host.count_of_size_le (Nat.le_add_left 2 a)).symm
    · intro slot mem a e
      rcases List.mem_cons.1 mem with rfl | mem
      · cases e
        decide
      · cases List.mem_singleton.1 mem
        cases e
        decide
  obtain ⟨h', run, left⟩ : ∃ h', halfFreed.run boxToNowhere = (.error (.unknownVariable "b"), h') ∧
      h' = ⟨#[⟨.foreign 7, 0⟩, ⟨.scalar (.int 3), 0⟩, ⟨.scalar (.int 0), 1⟩],
        [("a", some 0), ("n", some 1)], #[], false⟩ := ⟨_, rfl, rfl⟩
  obtain ⟨-, sound', kept⟩ := Host.run_sound sound run
  exact ⟨h', run, left, sound', kept⟩

end HostBridge
