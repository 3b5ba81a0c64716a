import HostBridge.Proofs.Value.History
import HostBridge.Value.InPlace

/-!
# What an operation on a node leaves alone

An operation in place makes its checks before its assignments. So it is carried out as a whole or
not at all (`Node.runOn_perform`, `Node.runOn_cloneUnbound`): in place a node becomes what `Node`
says it becomes, and stays as it is where that is refused. What is granted reaches no further than
the part of the node it is about (`Node.runOn_confined`).
-/

namespace HostBridge.Node

/-- A request carried out on a node in its place. -/
def perform : Request → NodeM Unit
  | .setRole role => NodeM.setRole role
  | .setData value? => NodeM.setData value?
  | .setName name? => NodeM.setName name?
  | .markAllocated => NodeM.markAllocated
  | .release => NodeM.release

/-- All or nothing: the node that is answered, or the node as it was. -/
def settle (n : Node) : Except ValueError Node × World → Except ValueError Unit × Node × World
  | (.ok m, w) => (.ok (), m, w)
  | (.error e, w) => (.error e, n, w)

/-! ## In place and by answer -/

section InPlace

variable (n : Node) (w : World)

/-- The three checks of a role come in the same order, and the role is assigned behind them. -/
theorem runOn_setRole (requested : Role) :
    (NodeM.setRole requested).runOn n w = n.settle (n.setRole requested, w) := by
  unfold setRole NodeM.setRole
  simp only [NodeM.runOn_bind, NodeM.runOn_self]
  cases n.role with
  | some existing =>
    dsimp only
    split <;> simp [settle]
  | none =>
    cases requested.owner.arity with
    | none => simp [settle, NodeM.assignRole]
    | some arity =>
      by_cases inside : requested.index < arity
      · simp [settle, NodeM.assignRole, inside, Nat.not_le.2 inside]
      · simp [settle, inside, Nat.not_lt.1 inside]

/-- A name is assigned once it has been accepted. -/
theorem runOn_setName (name? : Option String) :
    (NodeM.setName name?).runOn n w = n.settle (n.setName name?, w) := by
  unfold setName NodeM.setName
  cases name? with
  | none => simp [settle, NodeM.assignName]
  | some text =>
    simp only [NodeM.runOn_bind, NodeM.runOn_require]
    cases ValueName.ofText text with
    | ok name => rfl
    | error e => rfl

/-- The datum and the state are assigned one after the other, and nothing can fail between them. -/
theorem runOn_store (value : HostValue) :
    (NodeM.store value).runOn n w = (.ok (), { n with slot := .holding value }, w) := by
  simp [NodeM.store, NodeM.assignDatum, NodeM.assignState, DataSlot.holding]

/-- A value that is held already is left alone; of any other one the filter decides before it is
stored. -/
theorem runOn_setData (value? : Option HostValue) :
    (NodeM.setData value?).runOn n w = n.settle (n.setData value? w) := by
  unfold setData NodeM.setData
  cases value? with
  | none => simp [settle, NodeM.assignDatum, NodeM.assignState, DataSlot.empty]
  | some value =>
    simp only [NodeM.runOn_bind, NodeM.runOn_self]
    split
    · simp [settle]
    · simp only [NodeM.runOn_bind, NodeM.runOn_consult]
      cases (n.kind.consult value w).1 with
      | ok filtered => exact n.runOn_store _ filtered
      | error e =>
        dsimp only
        split
        · exact n.runOn_store _ value
        · simp [settle]

theorem runOn_markAllocated : NodeM.markAllocated.runOn n w = n.settle (n.markAllocated, w) := by
  unfold markAllocated NodeM.markAllocated
  simp only [NodeM.runOn_bind, NodeM.runOn_self]
  cases n.state <;> simp [settle, NodeM.assignState]

theorem runOn_release : NodeM.release.runOn n w = (.ok (), n.release, w) := by
  unfold release NodeM.release
  simp only [NodeM.runOn_bind, NodeM.runOn_self]
  split <;> simp [NodeM.assignState]

/-- Whatever is requested, in place a node becomes what is answered or stays as it is. -/
theorem runOn_perform (r : Request) : (perform r).runOn n w = n.settle (n.answer w r) := by
  cases r with
  | setRole role => exact n.runOn_setRole w role
  | setData value? => exact n.runOn_setData w value?
  | setName name? => exact n.runOn_setName w name?
  | markAllocated => exact n.runOn_markAllocated w
  | release => exact n.runOn_release w

/-- In place a request leaves the node and the world that a step of a history does. -/
theorem runOn_perform_snd (r : Request) :
    ((perform r).runOn n w).2 = ((n.respond w r).1, (n.respond w r).2.1) := by
  rw [runOn_perform]
  unfold Node.respond
  split
  · next answered =>
    rw [answered]
    rfl
  · next answered =>
    rw [answered]
    rfl

/-- The name of a node is accepted again. -/
theorem create_named (id : Nat) (kind : Kind) (own : Option ValueName) :
    create id kind none (own.map (·.text)) = .ok ⟨id, kind, none, .empty, own⟩ := by
  cases own with
  | none => rfl
  | some name =>
    obtain ⟨text, filled, clean⟩ := name
    have accepted : ValueName.ofText text = .ok ⟨text, filled, clean⟩ := by
      unfold ValueName.ofText
      rw [dif_neg filled, dif_pos clean]
    exact bind_of_ok accepted _

/-- A clone is made beside the original, which is the same afterwards. -/
theorem runOn_cloneUnbound :
    NodeM.cloneUnbound.runOn n w = ((n.cloneUnbound w).1, n, (n.cloneUnbound w).2) := by
  unfold NodeM.cloneUnbound cloneUnbound
  simp only [NodeM.runOn_bind, NodeM.runOn_self, NodeM.runOn_freshIdentity, NodeM.runOn_require]
  cases n.kind.cloneData w.next n.datum with
  | error e => rfl
  | ok data =>
    simp only [create_named, NodeM.runOn_on, runOn_setData]
    rcases setData _ data w.advance.advance with ⟨_ | m, v⟩ <;> rfl

end InPlace

/-! ## Frames -/

/-- The nodes that differ from `n` at most in what the request is about. State and datum are set
together by a request about data; one about storage keeps the datum. -/
def Request.Confines (n : Node) : Request → Node → Prop
  | .setRole _, m => ∃ role?, m = { n with role := role? }
  | .setName _, m => ∃ name?, m = { n with explicitName := name? }
  | .setData _, m =>
    m = n ∨ m = { n with slot := .empty } ∨ ∃ value, m = { n with slot := .holding value }
  | .markAllocated, m => ∃ state, m = { n with slot := ⟨state, n.datum⟩ }
  | .release, m => ∃ state, m = { n with slot := ⟨state, n.datum⟩ }

/-- What a request makes of a node differs from it in the part that the request is about. -/
theorem Responded.confined {n m : Node} {r : Request} (responded : Responded n ⟨r, true⟩ m) :
    r.Confines n m := by
  cases responded with
  | bound _ role? => exact ⟨role?, rfl⟩
  | named _ own => exact ⟨own, rfl⟩
  | emptied => exact .inr (.inl rfl)
  | held => exact .inl rfl
  | stored _ filtered => exact .inr (.inr ⟨filtered, rfl⟩)
  | reserved => exact ⟨.allocated, rfl⟩
  | reservedBefore => exact ⟨n.state, rfl⟩
  | released => exact ⟨.empty, rfl⟩
  | unreleased => exact ⟨n.state, rfl⟩

/-- Of a node of any kind, whatever its filter and its way of cloning: a refused request leaves
everything as it is, a granted one changes only the part it is about, a release is never refused,
and to be cloned, granted or not, changes nothing in the node. -/
theorem runOn_confined (n : Node) (w : World) :
    (∀ r, match (perform r).runOn n w with
      | (.error _, m, _) => m = n
      | (.ok (), m, _) => r.Confines n m) ∧
      (∃ m, (perform .release).runOn n w = (.ok (), m, w)) ∧
      (NodeM.cloneUnbound.runOn n w).2.1 = n := by
  refine ⟨?_, ⟨_, n.runOn_release w⟩, ?_⟩
  · intro r
    rw [runOn_perform]
    cases answered : n.answer w r with
    | mk answer w' =>
      cases answer with
      | ok m => exact (granted answered).confined
      | error e => rfl
  · rw [runOn_cloneUnbound]

end HostBridge.Node
