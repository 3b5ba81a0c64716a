import HostBridge.Proofs.Region.BuiltIn
import HostBridge.Proofs.Value.Datum
import HostBridge.Proofs.Value.Frame
import HostBridge.Proofs.Value.Steady

/-!
# Clones of nodes

A clone is a node of its own: its name is checked again and its data go through the filter again.
Of handles and scalars neither is refused, whatever was asked of the node before, and the clone is
faithful (`Node.cloneUnbound_faithful`). What carries this is that in a world where identities are
given out once, a node of a steady kind that came about there (`Node.Reached`) holds data that are
settled (`Node.Rooted`).
-/

namespace HostBridge.Node

/-- The object that a request hands over exists. -/
def Request.Given (w : World) : Request → Prop
  | .setData (some value) => value.id < w.next
  | _ => True

/-- Nodes that come about in a world: created, changed by requests that are granted or refused, and
cloned, while other things take identities. -/
inductive Reached : Node → World → Prop where
  | created {id : Nat} {kind : Kind} {role? : Option Role} {name? : Option String} {n : Node}
      {w : World} (used : id < w.next) (created : Node.create id kind role? name? = .ok n) :
      Reached n w
  | performed {n m : Node} {w w' : World} {r : Request} {outcome : Except ValueError Unit}
      (reached : Reached n w) (given : r.Given w)
      (performed : (perform r).runOn n w = (outcome, m, w')) : Reached m w'
  | cloned {n m copy : Node} {w w' : World} (reached : Reached n w)
      (cloned : NodeM.cloneUnbound.runOn n w = (.ok copy, m, w')) : Reached copy w'
  | later {n : Node} {w w' : World} (reached : Reached n w) (later : w.next ≤ w'.next) :
      Reached n w'

/-- The node and its datum are in use, and the datum, where there is one, is settled. -/
structure Rooted (n : Node) (w : World) : Prop where
  used : n.id < w.next
  agrees : n.Agrees
  datumUsed : ∀ {value}, n.datum = some value → value.id < w.next
  settled : ∀ {value}, n.datum = some value → n.kind.Settled value

/-! ## Requests -/

/-- Identities that were handed out stay used. -/
theorem le_next_respond (n : Node) (w : World) (r : Request) :
    w.next ≤ (n.respond w r).2.1.next := by
  rw [world_respond]
  cases r with
  | setData value? =>
    cases value? with
    | none => exact Nat.le_refl _
    | some value =>
      by_cases held : n.Holds value
      · rw [answer_held held]
      · rw [answer_other held]
        exact Nat.le_succ _
  | _ => exact Nat.le_refl _

/-- What a request stores is in use then and settled. -/
theorem rooted_of_settles {m : Moment} {value : HostValue} (steady : m.node.kind.Steady)
    (given : m.request.Given m.world) (settles : m.Settles (some value)) :
    value.id < (m.node.respond m.world m.request).2.1.next ∧ m.node.kind.Settled value := by
  cases settles with
  | @filtered offered _ request other accepted =>
    rw [request] at given
    refine ⟨?_, steady.settled accepted⟩
    rw [request, world_respond, answer_other other]
    rcases steady.origin accepted with same | new
    · rw [same]
      exact Nat.lt_succ_of_lt given
    · rw [new]
      exact Nat.lt_succ_self _
  | unfiltered request other failed => cases steady.supported failed

/-- A request keeps a node rooted: what is held afterwards was stored by it or was held before. -/
theorem Rooted.respond {n : Node} {w : World} {r : Request} (rooted : n.Rooted w)
    (steady : n.kind.Steady) (given : r.Given w) :
    (n.respond w r).1.Rooted (n.respond w r).2.1 := by
  have responded := n.responded w r
  have datum : ∀ {value}, (n.respond w r).1.datum = some value →
      value.id < (n.respond w r).2.1.next ∧ n.kind.Settled value := by
    intro value held
    by_cases settles : ∃ datum?, (Moment.mk n w r).Settles datum?
    · obtain ⟨datum?, settles⟩ := settles
      have stored := datum_respond_of_settles settles
      rw [held] at stored
      subst stored
      exact rooted_of_settles steady given settles
    · have kept := datum_respond_of_unsettled (not_exists.1 settles)
      rw [held] at kept
      exact ⟨Nat.lt_of_lt_of_le (rooted.datumUsed kept.symm) (n.le_next_respond w r),
        rooted.settled kept.symm⟩
  constructor
  · rw [responded.same.1]
    exact Nat.lt_of_lt_of_le rooted.used (n.le_next_respond w r)
  · exact responded.agrees rooted.agrees
  · exact fun held => (datum held).1
  · intro value held
    rw [responded.same.2]
    exact (datum held).2

theorem Rooted.mono {n : Node} {w w' : World} (rooted : n.Rooted w) (later : w.next ≤ w'.next) :
    n.Rooted w' where
  used := Nat.lt_of_lt_of_le rooted.used later
  agrees := rooted.agrees
  datumUsed held := Nat.lt_of_lt_of_le (rooted.datumUsed held) later
  settled := rooted.settled

/-- A new node has no datum yet. -/
theorem rooted_of_create {id : Nat} {kind : Kind} {role? : Option Role} {name? : Option String}
    {n : Node} {w : World} (used : id < w.next)
    (created : Node.create id kind role? name? = .ok n) : n.Rooted w := by
  obtain ⟨_, _, _, rfl⟩ := ok_of_create created
  constructor
  · exact used
  · exact agrees_of_datum_eq_none DataState.noConfusion rfl
  · intro value held
    cases held
  · intro value held
    cases held

/-! ## Clones -/

/-- The clone of a node of a steady kind: its datum is a copy under the next identity, and it has the
identity after that. -/
def copyIn (n : Node) (w : World) : Node where
  id := w.next + 1
  kind := n.kind
  role := none
  slot :=
    match n.datum with
    | none => .empty
    | some value => .holding (value.duplicate w.next)
  explicitName := n.explicitName

theorem datum_copyIn (n : Node) (w : World) :
    (n.copyIn w).datum = n.datum.map (HostValue.duplicate w.next) := by
  unfold copyIn datum
  cases n.slot.value? <;> rfl

theorem agrees_copyIn (n : Node) (w : World) : (n.copyIn w).Agrees := by
  unfold copyIn
  cases n.datum with
  | none => exact agrees_of_datum_eq_none DataState.noConfusion rfl
  | some value => exact iff_of_true rfl rfl

theorem state_copyIn (n : Node) (w : World) :
    (n.copyIn w).state = if n.datum.isSome then .computed else .empty := by
  unfold copyIn
  cases n.datum <;> rfl

/-- Nothing in the way of a clone is refused. The clone holds nothing yet, so its copy is not spared
the filter, which lets it pass since it is settled. -/
theorem cloneUnbound_of_settled {n : Node} (w : World) (steady : n.kind.Steady)
    (settled : ∀ {value}, n.datum = some value → n.kind.Settled value) :
    ∃ w', w.next + 2 ≤ w'.next ∧ n.cloneUnbound w = (.ok (n.copyIn w), w') := by
  unfold cloneUnbound
  dsimp only
  rw [steady.cloneData]
  unfold copyIn
  cases held : n.datum with
  | none => exact ⟨_, Nat.le_refl _, rfl⟩
  | some value =>
    let blank : Node := ⟨w.next + 1, n.kind, none, .empty, n.explicitName⟩
    have other : ¬blank.Holds (value.duplicate w.next) := by
      rintro ⟨_, none_held, _⟩
      cases none_held
    have accepted : blank.kind.filter w.advance.advance.next (value.duplicate w.next) =
        .ok (value.duplicate w.next) := settled held _ _
    exact ⟨_, Nat.le_succ _, answer_filtered other accepted⟩

theorem kind_of_cloneUnbound {n copy : Node} {w w' : World}
    (cloned : n.cloneUnbound w = (.ok copy, w')) : copy.kind = n.kind := by
  unfold cloneUnbound at cloned
  dsimp only at cloned
  split at cloned
  · cases cloned
  · exact (granted (r := .setData _) cloned).same.2

/-- The copy has the two identities that were handed out for it. -/
theorem Rooted.copyIn {n : Node} {w w' : World} (rooted : n.Rooted w)
    (later : w.next + 2 ≤ w'.next) : (n.copyIn w).Rooted w' := by
  constructor
  · exact later
  · exact n.agrees_copyIn w
  · intro value held
    rw [datum_copyIn] at held
    obtain ⟨original, -, rfl⟩ := Option.map_eq_some_iff.1 held
    rw [HostValue.id_duplicate]
    exact Nat.lt_of_lt_of_le (Nat.lt_add_of_pos_right Nat.two_pos) later
  · intro value held
    rw [datum_copyIn] at held
    obtain ⟨original, source, rfl⟩ := Option.map_eq_some_iff.1 held
    exact (rooted.settled source).duplicate w.next

/-- Nodes of steady kinds are rooted in every world in which they come about. A clone is, since its
original is and it is the copy of that. -/
theorem Reached.rooted {n : Node} {w : World} (reached : Reached n w) (steady : n.kind.Steady) :
    n.Rooted w := by
  induction reached with
  | created used created => exact rooted_of_create used created
  | @performed n m w w' r outcome reached given performed ih =>
    obtain ⟨rfl, rfl⟩ : m = (n.respond w r).1 ∧ w' = (n.respond w r).2.1 := by
      have after := n.runOn_perform_snd w r
      rw [performed] at after
      exact Prod.mk.inj after
    rw [(n.responded w r).same.2] at steady
    exact (ih steady).respond steady given
  | @cloned n m copy w w' reached cloned ih =>
    rw [runOn_cloneUnbound] at cloned
    obtain ⟨answered, after⟩ := Prod.mk.inj cloned
    obtain ⟨-, after⟩ := Prod.mk.inj after
    have cloned : n.cloneUnbound w = (.ok copy, w') := Prod.ext answered after
    rw [kind_of_cloneUnbound cloned] at steady
    obtain ⟨v, later, copied⟩ := cloneUnbound_of_settled w steady (ih steady).settled
    cases copied.symm.trans cloned
    exact (ih steady).copyIn later
  | later reached later ih => exact (ih steady).mono later

/-- What a clone has in common with a node, and what not. -/
structure Copied (n copy : Node) : Prop where
  other : copy.id ≠ n.id
  unbound : copy.role = none
  kind : copy.kind = n.kind
  name : copy.explicitName = n.explicitName
  /-- There is a datum where the node has one, of the same type and content. -/
  content : copy.datum.map HostValue.shape = n.datum.map HostValue.shape
  /-- The data are different objects. -/
  apart : ∀ value ∈ n.datum, ∀ value' ∈ copy.datum, value'.same value = false
  state : copy.state = if n.state = .computed then .computed else .empty

/-- The copy has the content of the original and an identity of its own, since all of the original
is older. -/
theorem Rooted.copied {n : Node} {w : World} (rooted : n.Rooted w) : Copied n (n.copyIn w) where
  other := Nat.ne_of_gt (Nat.lt_succ_of_lt rooted.used)
  unbound := rfl
  kind := rfl
  name := rfl
  content := by
    rw [datum_copyIn, Option.map_map]
    refine Option.map_congr fun value _ => ?_
    exact HostValue.shape_duplicate w.next value
  apart := by
    intro value held value' copied
    rw [datum_copyIn] at copied
    obtain ⟨original, -, rfl⟩ := Option.map_eq_some_iff.1 copied
    unfold HostValue.same
    rw [HostValue.id_duplicate]
    exact beq_false_of_ne (Nat.ne_of_gt (rooted.datumUsed held))
  state := by
    rw [state_copyIn]
    exact if_congr rooted.agrees.symm rfl rfl

/-- Handles and scalars are steady. -/
theorem IsBuiltIn.steady {n : Node} (builtIn : n.IsBuiltIn) : n.kind.Steady := by
  obtain ⟨ident, kind⟩ | ⟨type, ident, kind⟩ := builtIn
  · rw [kind]
    exact Kind.handle_steady ident
  · rw [kind]
    exact Kind.scalar_steady type ident

/-- A clone in place of a rooted node. -/
theorem Rooted.runOn_cloneUnbound {n : Node} {w : World} (rooted : n.Rooted w)
    (steady : n.kind.Steady) :
    ∃ w', w.next + 2 ≤ w'.next ∧ NodeM.cloneUnbound.runOn n w = (.ok (n.copyIn w), n, w') := by
  obtain ⟨w', later, cloned⟩ := cloneUnbound_of_settled w steady rooted.settled
  refine ⟨w', later, ?_⟩
  rw [Node.runOn_cloneUnbound, cloned]

/-- A handle or a scalar can be cloned, whatever happened to it before, and is left as it was. The
clone is another node without role, of the same kind object, with the same name of its own, and its
datum is another object of the same type and content. The filter takes that as it is. A clone of
the clone, made at any time, is again such a node. -/
theorem cloneUnbound_faithful {n : Node} {w : World} (reached : Reached n w)
    (builtIn : n.IsBuiltIn) :
    ∃ copy w', NodeM.cloneUnbound.runOn n w = (.ok copy, n, w') ∧ Copied n copy ∧
      (∀ value ∈ copy.datum, ∀ fresh, copy.kind.filter fresh value = .ok value) ∧
      ∀ v : World, w'.next ≤ v.next →
        ∃ again v', NodeM.cloneUnbound.runOn copy v = (.ok again, copy, v') ∧
          Copied copy again ∧
          again.datum.map HostValue.shape = n.datum.map HostValue.shape := by
  have rooted := reached.rooted builtIn.steady
  obtain ⟨w', later, cloned⟩ := rooted.runOn_cloneUnbound builtIn.steady
  have copyRooted := rooted.copyIn later
  refine ⟨n.copyIn w, w', cloned, rooted.copied, ?_, ?_⟩
  · intro value held fresh
    exact (copyRooted.settled held).filter_eq fresh
  · intro v after
    have copyRooted := copyRooted.mono after
    obtain ⟨v', -, cloned⟩ := copyRooted.runOn_cloneUnbound builtIn.steady
    exact ⟨_, v', cloned, copyRooted.copied, copyRooted.copied.content.trans rooted.copied.content⟩

/-- A node of real numbers that has put a number in the place of the integer 7. -/
def holdingSeven : Node :=
  ⟨0, .scalar .float64 0, none, .holding (.plain 2 (.f64 ⟨0x401c000000000000⟩)), none⟩

theorem holdingSeven_cloneUnbound_faithful :
    Reached holdingSeven ⟨3, [0]⟩ ∧ holdingSeven.IsBuiltIn ∧
      ∃ copy w', NodeM.cloneUnbound.runOn holdingSeven ⟨3, [0]⟩ = (.ok copy, holdingSeven, w') ∧
        copy.id ≠ 0 ∧
        copy.datum.map HostValue.shape = some (.plain (.f64 ⟨0x401c000000000000⟩)) := by
  have created : Node.create 0 (.scalar .float64 0) none none =
      .ok ⟨0, .scalar .float64 0, none, .empty, none⟩ := rfl
  have blank : Reached ⟨0, .scalar .float64 0, none, .empty, none⟩ ⟨2, []⟩ :=
    .created Nat.two_pos created
  have reached : Reached holdingSeven ⟨3, [0]⟩ :=
    blank.performed (r := .setData (some (.plain 1 (.i64 7)))) Nat.one_lt_two rfl
  have builtIn : holdingSeven.IsBuiltIn := .inr ⟨.float64, 0, rfl⟩
  obtain ⟨copy, w', cloned, copied, -⟩ := cloneUnbound_faithful reached builtIn
  exact ⟨reached, builtIn, copy, w', cloned, copied.other, copied.content⟩

end HostBridge.Node
