import HostBridge.Proofs.Heap.References

/-!
# The ledger of a run

While native code runs, references are owned by slots and by native variables. `Ledger`
says who owns what: each count is a base, which stands for what the code has not
touched, and what the variables of a list own. With the slots as base the heap is
balanced up to those variables, and balanced once the list is empty
(`settled_nil_iff`).

A variable outside the list owns nothing, even where it still holds an address.
-/

namespace HostBridge

/-- The type under which content can have been declared. -/
def VarContent.type : VarContent → VarType
  | handle _ => .handle
  | scalar value => .scalar value.scalarType

@[simp] theorem Literal.scalarType_zero (type : ScalarType) : (Literal.zero type).scalarType = type := by
  cases type <;> rfl

@[simp] theorem VarType.type_start (type : VarType) : type.start.type = type := by
  cases type with
  | handle => rfl
  | scalar type => exact congrArg VarType.scalar (Literal.scalarType_zero type)

/-- The variables are declared as `types` has them. Others may be declared as well. -/
def Typed (types : String → Option VarType) (vars : Table VarContent) : Prop :=
  ∀ name type, types name = some type → ∃ content, vars.get? name = some content ∧ content.type = type

section Typed

variable {types : String → Option VarType} {vars : Table VarContent} {v : String}

/-- A variable of handle type holds a handle. -/
theorem Typed.handle (typed : Typed types vars) (type : types v = some .handle) :
    ∃ handle, vars.get? v = some (.handle handle) := by
  obtain ⟨content, there, e⟩ := typed v _ type
  cases content with
  | handle handle => exact ⟨handle, there⟩
  | scalar value => cases e

theorem Typed.scalar {type : ScalarType} (typed : Typed types vars)
    (declared : types v = some (.scalar type)) :
    ∃ value, vars.get? v = some (.scalar value) ∧ value.scalarType = type := by
  obtain ⟨content, there, e⟩ := typed v _ declared
  cases content with
  | handle handle => cases e
  | scalar value => exact ⟨value, there, VarType.scalar.inj e⟩

/-- A variable may get content of its type. -/
theorem Typed.put (typed : Typed types vars) (content : VarContent)
    (fits : ∀ type, types v = some type → content.type = type) : Typed types (vars.put v content) := by
  intro name type declared
  rw [Table.get?_put]
  by_cases e : v = name
  · subst e
    exact ⟨content, if_pos rfl, fits type declared⟩
  · rw [if_neg e]
    exact typed name type declared

/-- Variables stay typed if the new content has the type of the old one. -/
theorem Typed.put_of_type (typed : Typed types vars) {type : VarType} (declared : types v = some type)
    {content : VarContent} (fits : content.type = type) : Typed types (vars.put v content) := by
  apply typed.put
  intro type' declared'
  cases declared.symm.trans declared'
  exact fits

end Typed

/-- The handle in a variable; null where there is none. -/
def handleIn (vars : Table VarContent) (v : String) : Handle :=
  match vars.get? v with
  | some (.handle handle) => handle
  | _ => none

theorem handleIn_of_get? {vars : Table VarContent} {v : String} {handle : Handle}
    (there : vars.get? v = some (.handle handle)) : handleIn vars v = handle := by
  simp [handleIn, there]

theorem handleIn_put_self (vars : Table VarContent) (v : String) (handle : Handle) :
    handleIn (vars.put v (.handle handle)) v = handle :=
  handleIn_of_get? (by simp [Table.get?_put])

theorem handleIn_put_of_ne (vars : Table VarContent) {v w : String} (content : VarContent)
    (ne : v ≠ w) : handleIn (vars.put v content) w = handleIn vars w := by
  simp [handleIn, Table.get?_put, ne]

/-- The references to an address that the variables of a list hold. -/
def held (vars : Table VarContent) : List String → Address → Nat
  | [], _ => 0
  | v :: rest, a => refs (handleIn vars v) a + held vars rest a

@[simp] theorem held_nil (vars : Table VarContent) (a : Address) : held vars [] a = 0 := rfl

theorem held_cons (vars : Table VarContent) (v : String) (owners : List String) (a : Address) :
    held vars (v :: owners) a = refs (handleIn vars v) a + held vars owners a := rfl

/-- One more owner holds what its variable points at. -/
theorem held_snoc (vars : Table VarContent) (owners : List String) (v : String) (a : Address) :
    held vars (owners ++ [v]) a = held vars owners a + refs (handleIn vars v) a := by
  induction owners with
  | nil => rw [List.nil_append, held_cons, held_nil, Nat.add_comm]
  | cons w rest ih =>
    rw [List.cons_append, held_cons, held_cons, ih]
    omega

/-- Writing a variable that owns nothing changes nothing in what is held. -/
theorem held_put_of_not_mem {vars : Table VarContent} {owners : List String} {v : String}
    (out : v ∉ owners) (content : VarContent) (a : Address) :
    held (vars.put v content) owners a = held vars owners a := by
  induction owners with
  | nil => rfl
  | cons w rest ih =>
    have ne : v ≠ w := fun e => out (e ▸ List.mem_cons_self ..)
    rw [held_cons, held_cons, handleIn_put_of_ne vars content ne,
      ih fun mem => out (List.mem_cons_of_mem _ mem)]

/-- Putting a handle into an owner takes away the reference it held. -/
theorem held_put {vars : Table VarContent} {owners : List String} {v : String} (mem : v ∈ owners)
    (nodup : owners.Nodup) (new : Handle) (a : Address) :
    held (vars.put v (.handle new)) owners a + refs (handleIn vars v) a =
      held vars owners a + refs new a := by
  induction owners with
  | nil => cases mem
  | cons w rest ih =>
    obtain ⟨out, nodup⟩ := List.nodup_cons.1 nodup
    rw [held_cons, held_cons]
    by_cases e : v = w
    · subst e
      rw [handleIn_put_self, held_put_of_not_mem out]
      omega
    · have := ih ((List.mem_cons.1 mem).resolve_left e) nodup
      rw [handleIn_put_of_ne vars _ e]
      omega

theorem refs_le_held (vars : Table VarContent) {owners : List String} {v : String}
    (mem : v ∈ owners) (a : Address) : refs (handleIn vars v) a ≤ held vars owners a := by
  induction owners with
  | nil => cases mem
  | cons w rest ih =>
    rw [held_cons]
    rcases List.mem_cons.1 mem with rfl | mem
    · omega
    · have := ih mem
      omega

/-- Each count is the base and what the owners hold. -/
def Ledger (base : Address → Int) (owners : List String) (host : Host) (vars : Table VarContent) :
    Prop :=
  ∀ a, host.count a = base a + held vars owners a

/-- Slots and the listed variables are all that owns references. -/
abbrev Settled (owners : List String) (host : Host) (vars : Table VarContent) : Prop :=
  Ledger (fun a => host.holders a) owners host vars

/-- Counts are right where each one is that of the slots and the owners together. -/
theorem settled_iff {owners : List String} {host : Host} {vars : Table VarContent} :
    Settled owners host vars ↔ ∀ a, host.count a = host.holders a + held vars owners a :=
  Iff.rfl

/-- Without owners, to be settled is to be balanced. -/
theorem settled_nil_iff (host : Host) (vars : Table VarContent) :
    Settled [] host vars ↔ host.balance = .balanced := by
  rw [Host.balance_eq_balanced_iff]
  simp [Ledger]

section Ledger

variable {base : Address → Int} {owners : List String} {host : Host} {vars : Table VarContent}
  {v : String}

/-- What an owner holds can be used, if the base does not owe it. -/
theorem Ledger.usable (ledger : Ledger base owners host vars) (mem : v ∈ owners)
    (backed : ∀ a, handleIn vars v = some a → 0 ≤ base a) : host.Usable (handleIn vars v) := by
  intro a e
  have := ledger a
  have := refs_le_held vars mem a
  have := backed a e
  rw [e, refs_self] at *
  omega

/-- Another content for a variable that owns nothing. -/
theorem Ledger.put (ledger : Ledger base owners host vars) (out : v ∉ owners) (content : VarContent) :
    Ledger base owners host (vars.put v content) := by
  intro a
  rw [held_put_of_not_mem out, ledger a]

/-- An owner gets another handle, and the counts follow. -/
theorem Ledger.replace (ledger : Ledger base owners host vars) (mem : v ∈ owners)
    (nodup : owners.Nodup) {host' : Host} {new : Handle}
    (counts : ∀ a, host'.count a + refs (handleIn vars v) a = host.count a + refs new a) :
    Ledger base owners host' (vars.put v (.handle new)) := by
  intro a
  have := ledger a
  have := counts a
  have moved : held (vars.put v (.handle new)) owners a + refs (handleIn vars v) a =
      held vars owners a + refs new a := held_put mem nodup new a
  omega

/-- A new owner, for which a reference was taken. -/
theorem Ledger.acquire (ledger : Ledger base owners host vars) (out : v ∉ owners) {handle : Handle}
    (usable : host.Usable handle) :
    Ledger base (owners ++ [v]) (host.adjust handle 1) (vars.put v (.handle handle)) := by
  intro a
  rw [Host.count_adjust usable, held_snoc, held_put_of_not_mem out, handleIn_put_self, ledger a]
  push_cast
  omega

/-- The last owner gives its reference back. -/
theorem Ledger.giveBack (ledger : Ledger base (owners ++ [v]) host vars)
    (usable : host.Usable (handleIn vars v)) :
    Ledger base owners (host.adjust (handleIn vars v) (-1)) vars := by
  intro a
  have := ledger a
  rw [held_snoc] at this
  rw [Host.count_adjust usable, this]
  push_cast
  omega

end Ledger

end HostBridge
