import HostBridge.Proofs.Heap.References

/-!
# What statements do

One equation for each way a statement can succeed, with the state it leads to. Proofs
about code cite these and never open `Machine.step`.
-/

namespace HostBridge

/-- The scalar of that type in the object a handle points at, if it is one. -/
def Host.scalarAt (h : Host) (handle : Handle) (type : ScalarType) : Option Literal :=
  handle.bind fun a => ((h.value? a).bind HeapValue.scalar?).filter (·.scalarType = type)

theorem Host.scalarType_of_scalarAt {h : Host} {handle : Handle} {type : ScalarType} {v : Literal}
    (found : h.scalarAt handle type = some v) : v.scalarType = type := by
  cases handle with
  | none => cases found
  | some a => simpa using (Option.filter_eq_some_iff.1 found).2

namespace Machine

variable {code : Block} {m : Machine}

theorem readHandle_native {v : String} {handle : Handle}
    (there : m.vars.get? v = some (.handle handle)) : m.readHandle (.native v) = .ok handle := by
  simp [readHandle, there]

theorem readHandle_host {name : String} {handle : Handle}
    (there : m.host.slots.get? name = some handle) : m.readHandle (.host name) = .ok handle := by
  simp [readHandle, there]

theorem writeHandle_native {v : String} {old : Handle}
    (there : m.vars.get? v = some (.handle old)) (handle : Handle) :
    m.writeHandle (.native v) handle = .ok { m with vars := m.vars.put v (.handle handle) } := by
  simp [writeHandle, there]

theorem writeHandle_host {name : String} {old : Handle}
    (there : m.host.slots.get? name = some old) (handle : Handle) :
    m.writeHandle (.host name) handle = .ok { m with host := m.host.setSlot name handle } := by
  simp [writeHandle, there]

theorem writeScalar_of_type {v : String} {old new : Literal}
    (there : m.vars.get? v = some (.scalar old)) (type : old.scalarType = new.scalarType) :
    m.writeScalar v new = .ok { m with vars := m.vars.put v (.scalar new) } := by
  simp [writeScalar, there, type]

/-- A handle that is null or alive can be acquired. -/
theorem acquire_of_usable {handle : Handle} (usable : m.host.Usable handle) :
    m.acquire handle = .ok { m with host := m.host.adjust handle 1 } := by
  cases handle with
  | none => rfl
  | some a => simp [acquire, Host.isLive_of_usable usable, Host.adjust]

/-- A handle that is null or alive can be given back. -/
theorem giveBack_of_usable {handle : Handle} (usable : m.host.Usable handle) :
    m.giveBack handle = .ok { m with host := m.host.adjust handle (-1) } := by
  cases handle with
  | none => rfl
  | some a => simp [giveBack, Host.isLive_of_usable usable, Host.adjust]

/-- A handle that is null or alive can be looked at, and may hold another type. -/
theorem unboxed?_of_usable {handle : Handle} (usable : m.host.Usable handle) (type : ScalarType) :
    m.unboxed? handle type = .ok (m.host.scalarAt handle type) := by
  cases handle with
  | none => rfl
  | some a => simp [unboxed?, Host.isLive_of_usable usable, Host.scalarAt]

theorem step_comment (text : String) :
    m.step code (.comment text) = .ok { m with trace := m.trace.push text, next := m.next + 1 } :=
  rfl

theorem step_label (l : Label) :
    m.step code (.label l) =
      .ok { m with trace := m.trace.push (l.text ++ ":"), next := m.next + 1 } :=
  rfl

theorem step_declare (v : String) (type : VarType) :
    m.step code (.declare v type) =
      .ok { m with vars := m.vars.put v type.start, next := m.next + 1 } :=
  rfl

/-- One more reference to what is at the place; for null there is nothing to count. -/
theorem step_incRef {place : Place} {handle : Handle} (read : m.readHandle place = .ok handle)
    (usable : m.host.Usable handle) :
    m.step code (.incRef place) =
      .ok { m with host := m.host.adjust handle 1, next := m.next + 1 } := by
  simp [step, read, acquire_of_usable usable, attempt, bind, Except.bind, advance]

/-- One reference less to what is at the place. The place itself keeps the handle. -/
theorem step_decRef {place : Place} {handle : Handle} (read : m.readHandle place = .ok handle)
    (usable : m.host.Usable handle) :
    m.step code (.decRef place) =
      .ok { m with host := m.host.adjust handle (-1), next := m.next + 1 } := by
  simp [step, read, giveBack_of_usable usable, attempt, bind, Except.bind, advance]

/-- Assigning a handle copies it and counts nothing. -/
theorem step_assign_native {v : String} {src : Place} {old handle : Handle}
    (read : m.readHandle src = .ok handle) (there : m.vars.get? v = some (.handle old)) :
    m.step code (.assign (.native v) src) =
      .ok { m with vars := m.vars.put v (.handle handle), next := m.next + 1 } := by
  simp [step, read, writeHandle_native there, attempt, bind, Except.bind, advance]

theorem step_assign_host {name : String} {src : Place} {old handle : Handle}
    (read : m.readHandle src = .ok handle) (there : m.host.slots.get? name = some old) :
    m.step code (.assign (.host name) src) =
      .ok { m with host := m.host.setSlot name handle, next := m.next + 1 } := by
  simp [step, read, writeHandle_host there, attempt, bind, Except.bind, advance]

theorem step_clear_native {v : String} {old : Handle} (there : m.vars.get? v = some (.handle old)) :
    m.step code (.clear (.native v)) =
      .ok { m with vars := m.vars.put v (.handle none), next := m.next + 1 } := by
  simp [step, writeHandle_native there, attempt, bind, Except.bind, advance]

theorem step_store {v : String} {old new : Literal} (there : m.vars.get? v = some (.scalar old))
    (type : old.scalarType = new.scalarType) :
    m.step code (.store v new) =
      .ok { m with vars := m.vars.put v (.scalar new), next := m.next + 1 } := by
  simp [step, writeScalar_of_type there type, attempt, bind, Except.bind, advance]

/-- Unboxing an object of the right type. -/
theorem step_unbox {dst : String} {src : Place} {type : ScalarType} {fail : Label}
    {handle : Handle} {v old : Literal} (read : m.readHandle src = .ok handle)
    (usable : m.host.Usable handle) (found : m.host.scalarAt handle type = some v)
    (there : m.vars.get? dst = some (.scalar old)) (same : old.scalarType = type) :
    m.step code (.unbox dst src type fail) =
      .ok { m with vars := m.vars.put dst (.scalar v), next := m.next + 1 } := by
  have same' : old.scalarType = v.scalarType := same.trans (Host.scalarType_of_scalarAt found).symm
  simp [step, read, unboxed?_of_usable usable, found, writeScalar_of_type there same', attempt,
    bind, Except.bind, advance]

/-- Unboxing anything else: a report, and a jump. -/
theorem step_unbox_refused {dst : String} {src : Place} {type : ScalarType} {fail : Label}
    {handle : Handle} {i : Nat} (read : m.readHandle src = .ok handle)
    (usable : m.host.Usable handle) (missing : m.host.scalarAt handle type = none)
    (target : code.position? fail = some i) :
    m.step code (.unbox dst src type fail) =
      .ok { m with host := m.host.report (dst ++ ": expected " ++ type.name), next := i } := by
  simp [step, read, unboxed?_of_usable usable, missing, jump, target, attempt, bind, Except.bind]

theorem readScalar_of_type {v : String} {value : Literal}
    (there : m.vars.get? v = some (.scalar value)) :
    m.readScalar v value.scalarType = .ok value := by
  simp [readScalar, there]

/-- The variable gets a new object. -/
theorem step_box_native {v src : String} {old : Handle} {value : Literal}
    (source : m.vars.get? src = some (.scalar value)) (there : m.vars.get? v = some (.handle old))
    (works : m.host.boxingFails = false) :
    m.step code (.box (.native v) src value.scalarType) =
      .ok { m with
        host := m.host.allocate (.scalar value)
        vars := m.vars.put v (.handle (some m.host.objects.size))
        next := m.next + 1 } := by
  simp [step, readScalar_of_type source, works, writeHandle, there, attempt, bind, Except.bind,
    advance]

/-- The variable becomes null and the host has a report. -/
theorem step_box_native_failed {v src : String} {old : Handle} {value : Literal}
    (source : m.vars.get? src = some (.scalar value)) (there : m.vars.get? v = some (.handle old))
    (fails : m.host.boxingFails = true) :
    m.step code (.box (.native v) src value.scalarType) =
      .ok { m with
        host := m.host.report (src ++ ": box failed")
        vars := m.vars.put v (.handle none)
        next := m.next + 1 } := by
  simp [step, readScalar_of_type source, fails, writeHandle, there, attempt, bind, Except.bind,
    advance]

/-- The slot gets a new object. -/
theorem step_box_host {name src : String} {old : Handle} {value : Literal}
    (source : m.vars.get? src = some (.scalar value))
    (there : m.host.slots.get? name = some old) (works : m.host.boxingFails = false) :
    m.step code (.box (.host name) src value.scalarType) =
      .ok { m with
        host := (m.host.allocate (.scalar value)).setSlot name (some m.host.objects.size)
        next := m.next + 1 } := by
  simp [step, readScalar_of_type source, works, writeHandle, Host.allocate, there, attempt, bind,
    Except.bind, advance]

/-- The slot becomes null and the host has a report. -/
theorem step_box_host_failed {name src : String} {old : Handle} {value : Literal}
    (source : m.vars.get? src = some (.scalar value))
    (there : m.host.slots.get? name = some old) (fails : m.host.boxingFails = true) :
    m.step code (.box (.host name) src value.scalarType) =
      .ok { m with
        host := (m.host.report (src ++ ": box failed")).setSlot name none
        next := m.next + 1 } := by
  simp [step, readScalar_of_type source, fails, writeHandle, Host.report, there, attempt, bind,
    Except.bind, advance]

/-- A handle that is not null goes on with the next statement, be the object alive or freed. -/
theorem step_gotoIfNull_of_some {place : Place} {target : Label} {a : Address}
    (read : m.readHandle place = .ok (some a)) :
    m.step code (.gotoIfNull place target) = .ok { m with next := m.next + 1 } := by
  simp [step, read, attempt, bind, Except.bind, advance]

theorem step_gotoIfNull_of_none {place : Place} {target : Label} {i : Nat}
    (read : m.readHandle place = .ok none) (position : code.position? target = some i) :
    m.step code (.gotoIfNull place target) = .ok { m with next := i } := by
  simp [step, read, jump, position, attempt, bind, Except.bind]

theorem step_goto {target : Label} {i : Nat} (position : code.position? target = some i) :
    m.step code (.goto target) = .ok { m with next := i } := by
  simp [step, jump, position, attempt]

end Machine
end HostBridge
