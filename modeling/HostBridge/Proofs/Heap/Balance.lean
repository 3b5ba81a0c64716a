import HostBridge.Proofs.Heap.References

/-!
# What the comparison of counts with slots finds

A host is compared slot by slot, in whatever order the slots come, and then object by object. The
verdict depends on the order only where several slots hold freed objects, and it is right in each
case: it is that the host is balanced if and only if every count is the number of slots that hold the
object, and otherwise names a slot that holds a freed object, or the first object with a wrong count
(`Host.balance_exact`). Hosts whose slots were bound one after the other are balanced.
-/

namespace HostBridge

/-- What a verdict says of a host. -/
def Balance.Describes (h : Host) : Balance → Prop
  | balanced => ∀ a < h.objects.size, h.count a = h.holders a
  | dangling first others => ∀ name a, (name, a) ∈ first :: others ↔
      (name, some a) ∈ h.slots ∧ h.count a = 0
  | miscounted a object expected =>
      (∀ name b, (name, some b) ∈ h.slots → h.count b ≠ 0) ∧
        h.objects[a]? = some object ∧ expected = h.holders a ∧ object.count ≠ expected ∧
        ∀ b < a, h.count b = h.holders b

theorem Balance.message?_eq_none_iff {verdict : Balance} :
    verdict.message? = none ↔ verdict = .balanced := by
  cases verdict <;> simp [Balance.message?]

namespace Host

/-- Nothing is bound under the name yet, or null is. -/
def IsFree (h : Host) (name : String) : Prop :=
  ∀ handle, h.slots.get? name = some handle → handle = none

/-- Hosts whose slots were bound one after the other, each under a name that was free. -/
inductive Furnished : Host → Prop where
  | empty : Furnished empty
  | new {h : Host} {name : String} (value : HeapValue) (furnished : Furnished h)
      (free : h.IsFree name) : Furnished (h.bindNew name value)
  | shared {h h' : Host} {name : String} {a : Address} (furnished : Furnished h)
      (free : h.IsFree name) (bound : h.bindShared name a = some h') : Furnished h'
  | null {h : Host} {name : String} (furnished : Furnished h) (free : h.IsFree name) :
      Furnished (h.bindNull name)

/-! ## The verdict -/

section Verdict

variable {h : Host}

/-- A slot dangles if it leads to an object without references. -/
theorem mem_danglingSlots {name : String} {a : Address} :
    (name, a) ∈ h.danglingSlots ↔ (name, some a) ∈ h.slots ∧ h.count a = 0 := by
  unfold danglingSlots
  rw [List.mem_filterMap]
  constructor
  · rintro ⟨⟨key, handle⟩, mem, found⟩
    cases handle with
    | none => cases found
    | some b =>
      dsimp only at found
      split at found
      · next dead =>
        cases found
        exact ⟨mem, dead⟩
      · cases found
  · rintro ⟨mem, dead⟩
    exact ⟨(name, some a), mem, if_pos dead⟩

/-- The search stops at the first count that is wrong. -/
theorem miscountFrom?_eq_some {objects : List HeapObject} {a b : Address} {object : HeapObject}
    (found : h.miscountFrom? a objects = some (b, object)) :
    ∃ i : Nat, b = a + i ∧ objects[i]? = some object ∧ object.count ≠ h.holders b ∧
      ∀ j < i, ∀ o, objects[j]? = some o → o.count = h.holders (a + j) := by
  induction objects generalizing a with
  | nil => cases found
  | cons first rest ih =>
    rw [miscountFrom?] at found
    split at found
    · next counted =>
      obtain ⟨i, rfl, there, wrong, before⟩ := ih found
      refine ⟨i + 1, Nat.add_right_comm a 1 i, there, wrong, ?_⟩
      intro j less o at_j
      cases j with
      | zero =>
        cases at_j
        exact counted
      | succ j =>
        rw [before j (by omega) o at_j, Nat.add_right_comm, Nat.add_assoc]
    · next wrong =>
      cases found
      exact ⟨0, rfl, rfl, wrong, fun j less => absurd less (Nat.not_lt_zero j)⟩

theorem count_of_getElem? {a : Address} {object : HeapObject} (there : h.objects[a]? = some object) :
    h.count a = object.count := by
  unfold count
  rw [there]

/-- The verdict says of the host what it means. -/
theorem describes_balance (h : Host) : h.balance.Describes h := by
  unfold balance
  split
  · next first others dangling =>
    intro name a
    rw [← dangling]
    exact mem_danglingSlots
  · next clean =>
    have live : ∀ name b, (name, some b) ∈ h.slots → h.count b ≠ 0 := by
      intro name b mem dead
      have dangling := mem_danglingSlots.2 ⟨mem, dead⟩
      rw [clean] at dangling
      cases dangling
    split
    · next a object found =>
      obtain ⟨i, e, there, wrong, before⟩ := miscountFrom?_eq_some found
      rw [Nat.zero_add] at e
      subst e
      rw [Array.getElem?_toList] at there
      refine ⟨live, there, rfl, wrong, ?_⟩
      intro b less
      have inside : b < h.objects.size :=
        Nat.lt_trans less (Array.getElem?_eq_some_iff.1 there).1
      have at_b : h.objects[b]? = some h.objects[b] := Array.getElem?_eq_getElem inside
      rw [count_of_getElem? at_b, before b less _ (by rw [Array.getElem?_toList, at_b]), Nat.zero_add]
    · next counted =>
      intro a inside
      have at_a : h.objects[a]? = some h.objects[a] := Array.getElem?_eq_getElem inside
      rw [count_of_getElem? at_a, (miscountFrom?_eq_none_iff h _ 0).1 counted a _
        (by rw [Array.getElem?_toList, at_a]), Nat.zero_add]

/-- Where slots hold objects that are there, addresses without an object are of no concern. -/
theorem balanced_iff_of_existing
    (existing : ∀ name a, (name, some a) ∈ h.slots → a < h.objects.size) :
    h.balance = .balanced ↔ ∀ a < h.objects.size, h.count a = h.holders a := by
  rw [balance_eq_balanced_iff]
  constructor
  · exact fun counted a _ => counted a
  · intro counted a
    by_cases inside : a < h.objects.size
    · exact counted a inside
    · have free : ∀ slot ∈ h.slots, slot.2 ≠ some a := by
        rintro ⟨name, handle⟩ mem rfl
        exact inside (existing name a mem)
      rw [count_of_size_le (Nat.le_of_not_lt inside), holders_eq_zero free]
      rfl

end Verdict

/-! ## The order of the slots -/

section Order

variable {h : Host} {slots : Table Handle}

/-- The order of the slots does not matter to how many hold an object. -/
theorem holders_perm (same : slots.Perm h.slots) (a : Address) :
    Host.holders { h with slots } a = h.holders a :=
  same.countP_eq _

/-- A verdict for one order of the slots is right for any other. -/
theorem describes_perm (same : slots.Perm h.slots) {verdict : Balance}
    (describes : verdict.Describes { h with slots }) : verdict.Describes h := by
  have mem (slot : String × Handle) : slot ∈ slots ↔ slot ∈ h.slots := same.mem_iff
  have holders := holders_perm same
  cases verdict with
  | balanced =>
    intro a inside
    rw [← holders]
    exact describes a inside
  | dangling first others =>
    intro name a
    rw [← mem]
    exact describes name a
  | miscounted a object expected =>
    obtain ⟨live, there, counted, wrong, before⟩ := describes
    refine ⟨?_, there, ?_, wrong, ?_⟩
    · intro name b held
      exact live name b ((mem _).2 held)
    · rw [← holders]
      exact counted
    · intro b less
      rw [← holders]
      exact before b less

end Order

/-! ## Hosts that are furnished -/

section Furnished

variable {h : Host} {name : String}

/-- A name that is free holds no reference, whether or not it has a slot. -/
theorem holders_setSlot_of_isFree (free : h.IsFree name) (new : Handle) (a : Address) :
    (h.setSlot name new).holders a = h.holders a + refs new a := by
  cases there : h.slots.get? name with
  | some handle =>
    obtain rfl := free handle there
    exact holders_setSlot there new a
  | none =>
    unfold setSlot
    rw [holders_eq, holders_eq]
    dsimp only
    generalize h.slots = slots at there
    induction slots with
    | nil => rw [Table.put, holdersIn_cons, Nat.add_comm]
    | cons entry rest ih =>
      obtain ⟨key, handle⟩ := entry
      rw [Table.get?] at there
      split at there
      · cases there
      · next other =>
        rw [Table.put, if_neg other, holdersIn_cons, holdersIn_cons, ih there, Nat.add_assoc]

/-- Each way to furnish a host counts what it binds. -/
theorem Furnished.balanced (furnished : h.Furnished) : h.balance = .balanced := by
  rw [balance_eq_balanced_iff]
  induction furnished with
  | empty => exact fun _ => rfl
  | @new h name value furnished free counted =>
    intro a
    have free : (h.allocate value).IsFree name := free
    rw [bindNew, count_setSlot, holders_setSlot_of_isFree free, holders_allocate, count_allocate]
    by_cases e : a = h.objects.size
    · rw [if_pos e, e, refs_self, Int.natCast_add, ← counted, count_of_size_le (Nat.le_refl _)]
      rfl
    · rw [if_neg e, refs_of_ne (Ne.symm e), counted]
      rfl
  | @shared h h' name a furnished free bound counted =>
    unfold bindShared at bound
    split at bound
    · next live =>
      cases bound
      intro b
      have free : (h.adjust (some a) 1).IsFree name := free
      have usable : h.Usable (some a) := by
        rintro _ ⟨⟩
        simpa [isLive] using live
      have taken : ((h.adjust (some a) 1).setSlot name (some a)).count b =
          ((h.adjust (some a) 1).setSlot name (some a)).holders b := by
        rw [count_setSlot, count_adjust usable, holders_setSlot_of_isFree free, holders_adjust,
          counted]
        omega
      exact taken
    · cases bound
  | @null h name furnished free counted =>
    intro a
    rw [bindNull, count_setSlot, holders_setSlot_of_isFree free, refs_none, counted]
    rfl

/-- Slots of a furnished host lead to objects. -/
theorem Furnished.existing (furnished : h.Furnished) {a : Address} (held : (name, some a) ∈ h.slots) :
    a < h.objects.size := by
  have counted := (balance_eq_balanced_iff h).1 furnished.balanced a
  have positive := holders_pos_of_mem held rfl
  exact lt_size_of_count_ne (by omega)

end Furnished

/-- The comparison is exact. If slots hold only objects that exist, then in whatever order they come
nothing is reported if and only if every object's count is the number of slots that hold it, and what
is reported is so: a slot holds a freed object, or a count differs from the number that is given with
it. And a host is balanced whose slots were bound one after the other, to new objects, to objects in
use and to null, each under a name that was free. -/
theorem balance_exact :
    (∀ h : Host, (∀ name a, (name, some a) ∈ h.slots → a < h.objects.size) →
      ∀ slots : Table Handle, slots.Perm h.slots →
        ((Host.balance { h with slots }).message? = none ↔
          ∀ a < h.objects.size, h.count a = h.holders a) ∧
        (Host.balance { h with slots }).Describes h) ∧
      ∀ h : Host, h.Furnished → ∀ slots : Table Handle, slots.Perm h.slots →
        (Host.balance { h with slots }).message? = none := by
  have exact_in_any_order : ∀ h : Host,
      (∀ name a, (name, some a) ∈ h.slots → a < h.objects.size) →
      ∀ slots : Table Handle, slots.Perm h.slots →
        ((Host.balance { h with slots }).message? = none ↔
          ∀ a < h.objects.size, h.count a = h.holders a) := by
    intro h existing slots same
    have existing : ∀ name a, (name, some a) ∈ slots → a < h.objects.size :=
      fun name a held => existing name a (same.mem_iff.1 held)
    have verdict := balanced_iff_of_existing (h := { h with slots }) existing
    simp only [holders_perm same] at verdict
    exact Balance.message?_eq_none_iff.trans verdict
  refine ⟨?_, ?_⟩
  · intro h existing slots same
    exact ⟨exact_in_any_order h existing slots same, describes_perm same (describes_balance _)⟩
  · intro h furnished slots same
    have existing : ∀ name a, (name, some a) ∈ h.slots → a < h.objects.size :=
      fun _ _ => furnished.existing
    rw [exact_in_any_order h existing slots same]
    exact (balanced_iff_of_existing existing).1 furnished.balanced

/-- A slot holds an integer. -/
def heldByOne : Host :=
  empty.bindNew "a" (.scalar (.int 7))

/-- Two slots share the integer, and a third one was null before it got an object. -/
def sharedByTwo : Host :=
  (((heldByOne.addToCount 0 1).setSlot "b" (some 0)).bindNull "c").bindNew "c" (.foreign 1)

/-- The integer has a reference that no slot holds. -/
def leaking : Host :=
  sharedByTwo.addToCount 0 1

theorem sharedByTwo_furnished : sharedByTwo.Furnished := by
  have first : heldByOne.Furnished := .new _ .empty fun _ there => nomatch there
  have free : heldByOne.IsFree "b" := fun _ there => nomatch there
  have bound : heldByOne.bindShared "b" 0 =
      some ((heldByOne.addToCount 0 1).setSlot "b" (some 0)) := rfl
  have second := first.shared free bound
  have free : ((heldByOne.addToCount 0 1).setSlot "b" (some 0)).IsFree "c" :=
    fun _ there => nomatch there
  refine (second.null free).new (.foreign 1) fun handle there => ?_
  cases there
  rfl

theorem leaking_balance_exact :
    sharedByTwo.Furnished ∧
      (Host.balance { sharedByTwo with slots := sharedByTwo.slots.reverse }).message? = none ∧
      (Host.balance { leaking with slots := leaking.slots.reverse }).message? ≠ none := by
  have furnished := sharedByTwo_furnished
  refine ⟨furnished, balance_exact.2 _ furnished _ (List.reverse_perm _), ?_⟩
  have existing : ∀ name a, (name, some a) ∈ leaking.slots → a < leaking.objects.size := by
    intro name a held
    have inside : a < sharedByTwo.objects.size := furnished.existing held
    exact inside
  intro message
  have counted := (balance_exact.1 leaking existing _ (List.reverse_perm _)).1.1 message
  exact absurd (counted 0 (by decide)) (by decide)

end Host

end HostBridge
