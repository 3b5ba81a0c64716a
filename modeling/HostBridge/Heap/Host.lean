import HostBridge.Native.Literal
import HostBridge.Table

/-!
# The host's heap

A host keeps reference-counted objects and slots by name. An object is freed when its
count reaches zero; it keeps its address and value and is never used again. Each slot
that is not null owns one reference.

A host is balanced when every count is the number of slots that hold the object. `balance`
decides that and otherwise says what is wrong.
-/

namespace HostBridge

/-- What an object of the heap holds. -/
inductive HeapValue where
  | scalar (value : Literal)
  /-- An object that native code cannot look into. -/
  | foreign (tag : Nat)
  deriving DecidableEq, Repr

namespace HeapValue

def scalar? : HeapValue → Option Literal
  | scalar value => some value
  | foreign _ => none

def toText : HeapValue → String
  | scalar (.int v) => "Int(" ++ toString v.toInt ++ ")"
  | scalar (.float v) => "Float(" ++ v.toText ++ ")"
  | scalar (.bool true) => "Bool(true)"
  | scalar (.bool false) => "Bool(false)"
  | foreign tag => "Opaque(" ++ toString tag ++ ")"

end HeapValue

/-- An object with its reference count; zero means freed. -/
structure HeapObject where
  value : HeapValue
  count : Int
  deriving DecidableEq, Repr

/-- Objects are numbered in the order of their creation. -/
abbrev Address := Nat

/-- A handle in a slot or a variable: an address, or null. -/
abbrev Handle := Option Address

structure Host where
  objects : Array HeapObject
  slots : Table Handle
  /-- What was reported through the host's error channel, oldest first. -/
  reports : Array String
  /-- Boxing reports an error and gives null, as when memory runs out. -/
  boxingFails : Bool

namespace Host

def empty : Host := ⟨#[], [], #[], false⟩

/-- The reference count at an address; where there is no object it is zero. -/
def count (h : Host) (a : Address) : Int :=
  match h.objects[a]? with
  | some object => object.count
  | none => 0

def value? (h : Host) (a : Address) : Option HeapValue :=
  h.objects[a]?.map (·.value)

/-- The object can be used: it has references left. -/
def isLive (h : Host) (a : Address) : Bool :=
  0 < h.count a

/-- A new object with one reference, at the next address. -/
def allocate (h : Host) (value : HeapValue) : Host :=
  { h with objects := h.objects.push ⟨value, 1⟩ }

/-- Changes the reference count at an address. -/
def addToCount (h : Host) (a : Address) (change : Int) : Host :=
  { h with objects := h.objects.modify a fun o => { o with count := o.count + change } }

def report (h : Host) (text : String) : Host :=
  { h with reports := h.reports.push text }

def setSlot (h : Host) (name : String) (handle : Handle) : Host :=
  { h with slots := h.slots.put name handle }

@[simp] theorem count_report (h : Host) (text : String) (a : Address) :
    (h.report text).count a = h.count a := rfl

@[simp] theorem count_setSlot (h : Host) (name : String) (handle : Handle) (a : Address) :
    (h.setSlot name handle).count a = h.count a := rfl

/-- A new object has one reference; all others keep theirs. -/
theorem count_allocate (h : Host) (value : HeapValue) (a : Address) :
    (h.allocate value).count a = if a = h.objects.size then 1 else h.count a := by
  unfold allocate count
  by_cases ha : a = h.objects.size
  · simp [ha]
  · simp [ha, Array.getElem?_push]

theorem count_addToCount (h : Host) (a b : Address) (change : Int) (hb : b < h.objects.size) :
    (h.addToCount a change).count b = if a = b then h.count b + change else h.count b := by
  unfold addToCount count
  by_cases hab : a = b <;> simp [hab, Array.getElem_modify, hb]

/-- Objects keep their values whatever becomes of their counts. -/
theorem value?_addToCount (h : Host) (a b : Address) (change : Int) :
    (h.addToCount a change).value? b = h.value? b := by
  unfold addToCount value?
  by_cases hab : a = b <;> simp [hab, Array.getElem?_modify, Function.comp_def]

/-- Binds a new object; the slot owns its only reference. -/
def bindNew (h : Host) (name : String) (value : HeapValue) : Host :=
  (h.allocate value).setSlot name (some h.objects.size)

/-- Binds a live object, with a new reference for the slot. -/
def bindShared (h : Host) (name : String) (a : Address) : Option Host :=
  if h.isLive a then some ((h.addToCount a 1).setSlot name (some a)) else none

def bindNull (h : Host) (name : String) : Host :=
  h.setSlot name none

/-- How many slots hold an address. -/
def holders (h : Host) (a : Address) : Nat :=
  h.slots.countP fun slot => slot.2 == some a

/-- The slots that hold a freed object. -/
def danglingSlots (h : Host) : List (String × Address) :=
  h.slots.filterMap fun slot =>
    match slot.2 with
    | some a => if h.count a = 0 then some (slot.1, a) else none
    | none => none

end Host

/-- The outcome of comparing reference counts with slots. -/
inductive Balance where
  | balanced
  /-- Slots hold freed objects: the first one, and the others. -/
  | dangling (first : String × Address) (others : List (String × Address))
  /-- The first object whose count is not the number of its holders. -/
  | miscounted (address : Address) (object : HeapObject) (expected : Nat)
  deriving DecidableEq, Repr

/-- The first object from an address on whose count is not the number of its holders. -/
def Host.miscountFrom? (h : Host) (a : Address) : List HeapObject → Option (Address × HeapObject)
  | [] => none
  | object :: rest =>
    if object.count = h.holders a then h.miscountFrom? (a + 1) rest else some (a, object)

/-- Compares counts with slots. Slots that hold freed objects are looked for first. -/
def Host.balance (h : Host) : Balance :=
  match h.danglingSlots with
  | first :: others => .dangling first others
  | [] =>
    match h.miscountFrom? 0 h.objects.toList with
    | some (a, object) => .miscounted a object (h.holders a)
    | none => .balanced

/-- The report on a host that is not balanced. -/
def Balance.message? : Balance → Option String
  | balanced => none
  | dangling (name, a) _ => some ("binding " ++ name ++ " points at freed object " ++ toString a)
  | miscounted a object expected =>
    some ("object " ++ toString a ++ " (" ++ object.value.toText ++ ") has refcount " ++
      toString object.count ++ ", expected " ++ toString expected)

end HostBridge
