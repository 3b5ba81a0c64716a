import HostBridge.Proofs.Value.Cloning

/-!
# What a clone shares

The datum of a clone is a new object with the same handles in it. So node and clone share every object
that is behind a handle in the datum, at any depth, and no other (`Node.cloneUnbound_shares`). Data
without handles are not shared; a list with one item is (`Node.singleItem_shared`).
-/

namespace HostBridge

namespace HostValue

/-- The handles that an object holds itself. -/
def handles : HostValue → List HostValue
  | plain .. => []
  | list _ items => items
  | boxed _ inside => [inside]

@[simp] theorem handles_duplicate (fresh : ObjectId) (v : HostValue) :
    (v.duplicate fresh).handles = v.handles := by
  cases v <;> rfl

/-- What can be reached is the object itself and what is behind its handles. -/
theorem reachable_eq (v : HostValue) : v.reachable = v.id :: reachableItems v.handles := by
  cases v with
  | plain id content => rfl
  | list id items => rfl
  | boxed id inside =>
    rw [reachable, handles, reachableItems, reachableItems, List.append_nil]
    rfl

theorem reachableItems_eq_nil_iff {items : List HostValue} :
    reachableItems items = [] ↔ items = [] := by
  cases items with
  | nil => exact iff_of_true rfl rfl
  | cons item rest =>
    rw [reachableItems, reachable_eq, List.cons_append]
    exact iff_of_false (List.cons_ne_nil _ _) (List.cons_ne_nil _ _)

section Duplicate

variable {v : HostValue} {fresh : ObjectId}

/-- An object and its copy have everything behind the handles in common. -/
theorem mem_reachable_both_iff (other : fresh ≠ v.id) (a : ObjectId) :
    a ∈ v.reachable ∧ a ∈ (v.duplicate fresh).reachable ↔ a ∈ reachableItems v.handles := by
  rw [reachable_eq, reachable_eq, id_duplicate, handles_duplicate, List.mem_cons, List.mem_cons]
  constructor
  · rintro ⟨rfl | behind, same | behind'⟩
    · exact absurd same.symm other
    · exact behind'
    · exact behind
    · exact behind
  · exact fun behind => ⟨.inr behind, .inr behind⟩

theorem not_shared_iff (other : fresh ≠ v.id) :
    (∀ a ∈ v.reachable, a ∉ (v.duplicate fresh).reachable) ↔ v.handles = [] := by
  rw [← reachableItems_eq_nil_iff, List.eq_nil_iff_forall_not_mem]
  refine forall_congr' fun a => ?_
  rw [← mem_reachable_both_iff other, not_and]

end Duplicate

end HostValue

namespace Node

open HostValue (reachableItems)

/-- A handle that holds an object can be cloned, whatever happened to it before, and the datum of the
clone is another object. An object is reachable from both data if and only if it is behind a handle
that the datum of the node holds. So nothing is shared if and only if that holds no handle. If what is
reachable from it is in use, then it does not lead to the datum of the clone either. -/
theorem cloneUnbound_shares {n : Node} {w : World} {ident : Nat} {v : HostValue}
    (reached : Reached n w) (kind : n.kind = .handle ident) (held : n.datum = some v) :
    ∃ copy w' v', NodeM.cloneUnbound.runOn n w = (.ok copy, n, w') ∧ copy.datum = some v' ∧
      v'.id ≠ v.id ∧
      (∀ a, a ∈ v.reachable ∧ a ∈ v'.reachable ↔ a ∈ reachableItems v.handles) ∧
      ((∀ a ∈ v.reachable, a ∉ v'.reachable) ↔ v.handles = []) ∧
      ((∀ a ∈ v.reachable, a < w.next) → v'.id ∉ v.reachable) := by
  have steady : n.kind.Steady := by
    rw [kind]
    exact Kind.handle_steady ident
  have rooted := reached.rooted steady
  have other : w.next ≠ v.id := Nat.ne_of_gt (rooted.datumUsed held)
  obtain ⟨w', -, cloned⟩ := rooted.runOn_cloneUnbound steady
  refine ⟨n.copyIn w, w', v.duplicate w.next, cloned, ?_, ?_, ?_, HostValue.not_shared_iff other, ?_⟩
  · rw [datum_copyIn, held]
    rfl
  · rw [HostValue.id_duplicate]
    exact other
  · exact HostValue.mem_reachable_both_iff other
  · intro used reachable
    rw [HostValue.id_duplicate] at reachable
    exact Nat.lt_irrefl _ (used _ reachable)

/-- A node that holds a list of one integer. -/
def singleItem : Node :=
  ⟨0, .handle 0, none, .holding (.list 1 [.plain 2 (.i64 7)]), none⟩

theorem singleItem_reached : Reached singleItem ⟨3, [0]⟩ := by
  have created : Node.create 0 (.handle 0) none none = .ok ⟨0, .handle 0, none, .empty, none⟩ := rfl
  have blank : Reached ⟨0, .handle 0, none, .empty, none⟩ ⟨2, []⟩ := .created Nat.two_pos created
  exact blank.performed (r := .setData (some (.list 1 [.plain 2 (.i64 7)]))) Nat.one_lt_two rfl

theorem singleItem_cloneUnbound_shares :
    Reached singleItem ⟨3, [0]⟩ ∧
      ∃ copy w' v', NodeM.cloneUnbound.runOn singleItem ⟨3, [0]⟩ = (.ok copy, singleItem, w') ∧
        copy.datum = some v' ∧ 1 ∉ v'.reachable ∧ 2 ∈ v'.reachable := by
  have reached := singleItem_reached
  obtain ⟨copy, w', v', cloned, held, -, shared, -⟩ := cloneUnbound_shares reached rfl rfl
  refine ⟨reached, copy, w', v', cloned, held, ?_, ((shared 2).2 (by decide)).2⟩
  intro reachable
  exact absurd ((shared 1).1 ⟨by decide, reachable⟩) (by decide)

/-- So it is not true that a clone has all its data to itself. -/
theorem singleItem_shared :
    ¬ ∀ (n copy : Node) (w w' : World) (ident : Nat) (v v' : HostValue), Reached n w →
      n.kind = .handle ident → n.datum = some v → (∀ a ∈ v.reachable, a < w.next) →
        NodeM.cloneUnbound.runOn n w = (.ok copy, n, w') → copy.datum = some v' →
          ∀ a ∈ v.reachable, a ∉ v'.reachable := by
  intro claim
  exact claim singleItem _ _ _ 0 _ _ singleItem_reached rfl rfl (by decide) rfl rfl 2 (by decide)
    (by decide)

end Node

end HostBridge
