import HostBridge.Proofs.Run.Steps
import HostBridge.Value.Kind.Scalar
import HostBridge.Value.Node
import Mathlib.Data.List.DropRight

/-!
# What a node has been asked

A node is asked for changes from several sides: its role and its name are given to it, data is
stored in it, and storage for data is reserved and given back. A refused request leaves the node
as it is. State and datum are two fields, which these requests change each in its own way. In
whatever order they come, the state says that data was computed exactly where a datum is held, and
that storage is reserved only if that was granted since the slot was last emptied
(`Node.serve_attested`).

What a single request can do to a node is said once (`Node.Responded`); the rest follows from that.
-/

namespace HostBridge.Node

/-- What a node can be asked for. -/
inductive Request where
  | setRole (role : Role)
  | setData (value? : Option HostValue)
  | setName (name? : Option String)
  | markAllocated
  | release

/-- A request, and whether it was granted. -/
structure Event where
  request : Request
  granted : Bool

namespace Event

/-- The slot was emptied, or a reservation dropped if there was one. -/
def resets : Event → Bool
  | ⟨.setData none, _⟩ => true
  | ⟨.release, _⟩ => true
  | _ => false

/-- A value was stored. -/
def stores : Event → Bool
  | ⟨.setData (some _), granted⟩ => granted
  | _ => false

/-- Storage was reserved. -/
def reserves : Event → Bool
  | ⟨.markAllocated, granted⟩ => granted
  | _ => false

/-- The name that was given, or taken away. -/
def named? : Event → Option (Option String)
  | ⟨.setName name?, true⟩ => some name?
  | _ => none

end Event

/-- The events behind the last one that resets. -/
def sinceReset (past : List Event) : List Event :=
  past.rtakeWhile fun e => !e.resets

/-- The name that was given last, `first` if none was given since. -/
def lastName (first : Option String) (past : List Event) : Option String :=
  (past.filterMap Event.named?).getLast?.getD first

/-- The answer to a request. -/
def answer (n : Node) (w : World) : Request → Except ValueError Node × World
  | .setRole role => (n.setRole role, w)
  | .setData value? => n.setData value? w
  | .setName name? => (n.setName name?, w)
  | .markAllocated => (n.markAllocated, w)
  | .release => (.ok n.release, w)

/-- The node after a request, which is the same node if that is refused. -/
def respond (n : Node) (w : World) (r : Request) : Node × World × Event :=
  match n.answer w r with
  | (.ok m, w) => (m, w, ⟨r, true⟩)
  | (.error _, w) => (n, w, ⟨r, false⟩)

/-- The node after requests one after the other, and what became of them. -/
def serve (n : Node) (w : World) : List Request → Node × World × List Event
  | [] => (n, w, [])
  | r :: rest =>
    let (m, w, e) := n.respond w r
    let (m, w, events) := m.serve w rest
    (m, w, e :: events)

/-! ## One request -/

/-- All that a request can do to a node. -/
inductive Responded (n : Node) : Event → Node → Prop where
  /-- Neither emptying the slot nor dropping a reservation is refused. -/
  | refused {r : Request} (kept : Event.resets ⟨r, false⟩ = false) : Responded n ⟨r, false⟩ n
  | bound (role : Role) (role? : Option Role) :
      Responded n ⟨.setRole role, true⟩ { n with role := role? }
  | named (name? : Option String) (own : Option ValueName) (same : own.map (·.text) = name?) :
      Responded n ⟨.setName name?, true⟩ { n with explicitName := own }
  | emptied : Responded n ⟨.setData none, true⟩ { n with slot := .empty }
  /-- The object is held already. -/
  | held {value current : HostValue} (datum : n.datum = some current) :
      Responded n ⟨.setData (some value), true⟩ n
  | stored (value filtered : HostValue) :
      Responded n ⟨.setData (some value), true⟩ { n with slot := .holding filtered }
  | reserved (free : n.state = .empty) :
      Responded n ⟨.markAllocated, true⟩ { n with slot := { n.slot with state := .allocated } }
  | reservedBefore (allocated : n.state = .allocated) : Responded n ⟨.markAllocated, true⟩ n
  | released (allocated : n.state = .allocated) :
      Responded n ⟨.release, true⟩ { n with slot := { n.slot with state := .empty } }
  | unreleased (other : n.state ≠ .allocated) : Responded n ⟨.release, true⟩ n

theorem ok_of_setRole {n m : Node} {role : Role} (ok : n.setRole role = .ok m) :
    ∃ role?, m = { n with role := role? } := by
  unfold setRole at ok
  split at ok
  · split at ok
    · cases ok
      exact ⟨n.role, rfl⟩
    · cases ok
  · split at ok
    · split at ok
      · cases ok
        exact ⟨_, rfl⟩
      · cases ok
    · cases ok
      exact ⟨_, rfl⟩

theorem ok_of_setName {n m : Node} {name? : Option String} (ok : n.setName name? = .ok m) :
    ∃ own : Option ValueName, own.map (·.text) = name? ∧ m = { n with explicitName := own } := by
  cases name? with
  | none =>
    cases ok
    exact ⟨none, rfl, rfl⟩
  | some name =>
    obtain ⟨own, accepted, ok⟩ := ok_of_bind ok
    cases ok
    refine ⟨some own, ?_, rfl⟩
    unfold ValueName.ofText at accepted
    split at accepted
    · cases accepted
    · split at accepted
      · cases accepted
        rfl
      · cases accepted

theorem respond_of_ok {n m : Node} {w w' : World} {r : Request}
    (answered : n.answer w r = (.ok m, w')) : n.respond w r = (m, w', ⟨r, true⟩) := by
  unfold respond
  rw [answered]

/-- A refused request leaves the node as it was, though the world may have gone on. -/
theorem respond_of_error {n : Node} {w w' : World} {r : Request} {e : ValueError}
    (answered : n.answer w r = (.error e, w')) : n.respond w r = (n, w', ⟨r, false⟩) := by
  unfold respond
  rw [answered]

theorem granted_setData {n m : Node} {w w' : World} {value : HostValue}
    (ok : n.setData (some value) w = (.ok m, w')) :
    Responded n ⟨.setData (some value), true⟩ m := by
  unfold setData at ok
  dsimp only at ok
  split at ok
  · next same =>
    cases ok
    obtain ⟨current, datum, -⟩ := (Option.any_eq_true _ _).1 same
    exact .held datum
  · cases answer : (n.kind.consult value w).1 with
    | ok filtered =>
      simp only [answer] at ok
      cases ok
      exact .stored value filtered
    | error e =>
      simp only [answer] at ok
      split at ok
      · cases ok
        exact .stored value value
      · cases ok

/-- What a granted request makes of a node is one of the cases of `Responded`. -/
theorem granted {n m : Node} {w w' : World} {r : Request}
    (answered : n.answer w r = (.ok m, w')) : Responded n ⟨r, true⟩ m := by
  cases r with
  | setRole role =>
    obtain ⟨role?, rfl⟩ := ok_of_setRole (Prod.mk.inj answered).1
    exact .bound role role?
  | setData value? =>
    cases value? with
    | none =>
      cases answered
      exact .emptied
    | some value => exact granted_setData answered
  | setName name? =>
    obtain ⟨own, same, rfl⟩ := ok_of_setName (Prod.mk.inj answered).1
    exact .named name? own same
  | markAllocated =>
    have ok := (Prod.mk.inj answered).1
    unfold markAllocated at ok
    split at ok
    · next free =>
      cases ok
      exact .reserved free
    · next allocated =>
      cases ok
      exact .reservedBefore allocated
    · cases ok
  | release =>
    have ok := Except.ok.inj (Prod.mk.inj answered).1
    unfold release at ok
    split at ok
    · next allocated =>
      subst ok
      exact .released allocated
    · next other =>
      subst ok
      exact .unreleased other

theorem resets_of_refused {n : Node} {w w' : World} {r : Request} {e : ValueError}
    (answered : n.answer w r = (.error e, w')) : Event.resets ⟨r, false⟩ = false := by
  cases r with
  | setData value? =>
    cases value? with
    | none => cases answered
    | some value => rfl
  | release => cases answered
  | setRole role => rfl
  | setName name? => rfl
  | markAllocated => rfl

/-- Whatever the kind's filter is, a request does one of these things. -/
theorem responded (n : Node) (w : World) (r : Request) :
    Responded n (n.respond w r).2.2 (n.respond w r).1 := by
  cases answered : n.answer w r with
  | mk answer w' =>
    cases answer with
    | ok m =>
      rw [respond_of_ok answered]
      exact granted answered
    | error e =>
      rw [respond_of_error answered]
      exact .refused (resets_of_refused answered)

theorem request_respond (n : Node) (w : World) (r : Request) :
    (n.respond w r).2.2.request = r := by
  unfold respond
  split <;> rfl

section Responded

variable {n m : Node} {e : Event}

/-- A request leaves identity and kind alone. -/
theorem Responded.same (responded : Responded n e m) : m.id = n.id ∧ m.kind = n.kind := by
  cases responded <;> exact ⟨rfl, rfl⟩

/-- A node has the name that the request gives it, if it gives one. -/
theorem Responded.name (responded : Responded n e m) :
    m.explicitName.map (·.text) = e.named?.getD (n.explicitName.map (·.text)) := by
  cases responded with
  | @refused r kept => cases r <;> rfl
  | named name? own same => exact same
  | _ => rfl

/-- State and datum agree. -/
def Agrees (n : Node) : Prop :=
  n.state = .computed ↔ n.datum.isSome = true

theorem Agrees.datum_eq_none (agrees : n.Agrees) (without : n.state ≠ .computed) :
    n.datum = none := by
  cases held : n.datum with
  | none => rfl
  | some value => exact absurd (agrees.2 (by rw [held]; rfl)) without

theorem agrees_of_datum_eq_none (without : n.state ≠ .computed) (none_held : n.datum = none) :
    n.Agrees := by
  constructor
  · intro computed
    exact absurd computed without
  · intro held
    rw [none_held] at held
    cases held

/-- A request changes state and datum together, or so that they still agree. -/
theorem Responded.agrees (responded : Responded n e m) (agrees : n.Agrees) : m.Agrees := by
  cases responded with
  | refused => exact agrees
  | bound => exact agrees
  | named => exact agrees
  | emptied => exact agrees_of_datum_eq_none DataState.noConfusion rfl
  | held => exact agrees
  | stored => exact iff_of_true rfl rfl
  | reserved free =>
    apply agrees_of_datum_eq_none DataState.noConfusion
    apply agrees.datum_eq_none
    rw [free]
    exact DataState.noConfusion
  | reservedBefore => exact agrees
  | released allocated =>
    apply agrees_of_datum_eq_none DataState.noConfusion
    apply agrees.datum_eq_none
    rw [allocated]
    exact DataState.noConfusion
  | unreleased => exact agrees

/-- A node is without data because it was before and nothing was stored, or because of a reset. -/
theorem Responded.uncomputed (responded : Responded n e m) (agrees : n.Agrees)
    (without : m.state ≠ .computed) :
    e.resets = true ∨ n.state ≠ .computed ∧ e.stores = false := by
  cases responded with
  | @refused r kept =>
    refine .inr ⟨without, ?_⟩
    cases r with
    | setData value? => cases value? <;> rfl
    | _ => rfl
  | bound => exact .inr ⟨without, rfl⟩
  | named => exact .inr ⟨without, rfl⟩
  | emptied => exact .inl rfl
  | held datum =>
    rw [agrees.datum_eq_none without] at datum
    cases datum
  | stored => exact absurd rfl without
  | reserved free =>
    refine .inr ⟨?_, rfl⟩
    rw [free]
    exact DataState.noConfusion
  | reservedBefore => exact .inr ⟨without, rfl⟩
  | released => exact .inl rfl
  | unreleased => exact .inl rfl

/-- Storage is reserved because it was before, or by the request for that. -/
theorem Responded.allocated (responded : Responded n e m) (allocated : m.state = .allocated) :
    e.resets = false ∧ (n.state = .allocated ∨ e = ⟨.markAllocated, true⟩) := by
  cases responded with
  | refused kept => exact ⟨kept, .inl allocated⟩
  | bound => exact ⟨rfl, .inl allocated⟩
  | named => exact ⟨rfl, .inl allocated⟩
  | emptied => cases allocated
  | held => exact ⟨rfl, .inl allocated⟩
  | stored => cases allocated
  | reserved => exact ⟨rfl, .inr rfl⟩
  | reservedBefore => exact ⟨rfl, .inr rfl⟩
  | released => cases allocated
  | unreleased other => exact absurd allocated other

end Responded

/-! ## Requests one after the other -/

/-- A reset is forgotten with all before it, and any other event is remembered. -/
theorem sinceReset_snoc (past : List Event) (e : Event) :
    sinceReset (past ++ [e]) = if e.resets then [] else sinceReset past ++ [e] := by
  unfold sinceReset
  rw [List.rtakeWhile_concat]
  cases e.resets <;> rfl

theorem mem_sinceReset_snoc {past : List Event} {e e' : Event} :
    e' ∈ sinceReset (past ++ [e]) ↔ e.resets = false ∧ (e' ∈ sinceReset past ∨ e' = e) := by
  rw [sinceReset_snoc]
  cases e.resets <;> simp

theorem lastName_snoc (first : Option String) (past : List Event) (e : Event) :
    lastName first (past ++ [e]) = e.named?.getD (lastName first past) := by
  unfold lastName
  rw [List.filterMap_append]
  cases named : e.named? <;> simp [named]

/-- What is known of a node that was made with that identity, kind and name, by what became of
the requests to it. -/
structure Attested (id : Nat) (kind : Kind) (name? : Option String) (past : List Event)
    (n : Node) : Prop where
  id : n.id = id
  kind : n.kind = kind
  name : n.explicitName.map (·.text) = lastName name? past
  agrees : n.Agrees
  unstored : n.state ≠ .computed → ∀ e ∈ sinceReset past, e.stores = false
  reserved : n.state = .allocated → ∃ e ∈ sinceReset past, e.reserves = true

section Attested

variable {id : Nat} {kind : Kind} {role? : Option Role} {name? : Option String} {past : List Event}
  {n m : Node}

/-- What a history attests to of a node is kept by one more event. -/
theorem Attested.step (attested : Attested id kind name? past n) {e : Event}
    (responded : Responded n e m) : Attested id kind name? (past ++ [e]) m where
  id := responded.same.1.trans attested.id
  kind := responded.same.2.trans attested.kind
  name := by
    rw [responded.name, attested.name, lastName_snoc]
  agrees := responded.agrees attested.agrees
  unstored := by
    intro without e' mem
    obtain ⟨kept, origin⟩ := mem_sinceReset_snoc.1 mem
    rcases responded.uncomputed attested.agrees without with resets | ⟨before, stores⟩
    · rw [kept] at resets
      cases resets
    · rcases origin with earlier | rfl
      · exact attested.unstored before e' earlier
      · exact stores
  reserved := by
    intro allocated
    obtain ⟨kept, before | rfl⟩ := responded.allocated allocated
    · obtain ⟨e', mem, reserves⟩ := attested.reserved before
      exact ⟨e', mem_sinceReset_snoc.2 ⟨kept, .inl mem⟩, reserves⟩
    · exact ⟨_, mem_sinceReset_snoc.2 ⟨kept, .inr rfl⟩, rfl⟩

/-- So it is by all events of a run. -/
theorem Attested.serve (attested : Attested id kind name? past n) (w : World)
    (requests : List Request) :
    Attested id kind name? (past ++ (n.serve w requests).2.2) (n.serve w requests).1 := by
  induction requests generalizing n w past with
  | nil =>
    rw [Node.serve, List.append_nil]
    exact attested
  | cons r rest ih =>
    have next := ih (attested.step (n.responded w r)) (n.respond w r).2.1
    rw [List.append_assoc] at next
    exact next

/-- A new node has an empty slot and the name it was given. -/
theorem ok_of_create (created : Node.create id kind role? name? = .ok n) :
    ∃ (role? : Option Role) (own : Option ValueName), own.map (·.text) = name? ∧
      n = ⟨id, kind, role?, .empty, own⟩ := by
  obtain ⟨bound, role?, rfl, created⟩ : ∃ (bound : Node) (role? : Option Role),
      bound = ⟨id, kind, role?, .empty, none⟩ ∧ bound.setName name? = .ok n := by
    cases role? with
    | none => exact ⟨_, none, rfl, created⟩
    | some role =>
      obtain ⟨bound, given, created⟩ := ok_of_bind created
      obtain ⟨role?, rfl⟩ := ok_of_setRole given
      exact ⟨_, role?, rfl, created⟩
  obtain ⟨own, same, rfl⟩ := ok_of_setName created
  exact ⟨role?, own, same, rfl⟩

/-- Nothing has become of a new node yet. -/
theorem attested_of_create (created : Node.create id kind role? name? = .ok n) :
    Attested id kind name? [] n := by
  obtain ⟨role?, own, same, rfl⟩ := ok_of_create created
  constructor
  · rfl
  · rfl
  · exact same
  · exact agrees_of_datum_eq_none DataState.noConfusion rfl
  · intro _ e mem
    cases mem
  · intro allocated
    cases allocated

theorem Attested.toText (attested : Attested id kind name? past n) :
    n.toText = match n.datum with
      | some value => n.name ++ ":" ++ value.toText
      | none => n.name := by
  unfold Node.toText
  cases held : n.datum with
  | none => rfl
  | some value =>
    have computed := attested.agrees.2 (by rw [held]; rfl)
    rw [computed]

/-- Data that is stored, or emptied, does not make the state a reservation. -/
theorem allocated_of_setData {w : World} {value? : Option HostValue}
    (allocated : (n.respond w (.setData value?)).1.state = .allocated) : n.state = .allocated := by
  obtain ⟨-, before | reserves⟩ := (n.responded w (.setData value?)).allocated allocated
  · exact before
  · have request := n.request_respond w (.setData value?)
    rw [reserves] at request
    cases request

end Attested

/-- After any requests, granted or not, to a node of any kind: the state says that data was
computed where there is a datum and nowhere else, and the text shows it there. Storing and
emptying do not lead to a reservation; there is one only if one was granted since the last reset,
and nothing was stored since. The name of its own is the last one that was given, not empty and
without control characters. Identity and kind are those of its creation. -/
theorem serve_attested {id : Nat} {kind : Kind} {role? : Option Role} {name? : Option String}
    {made n : Node} {w w' : World} {requests : List Request} {events : List Event}
    (created : Node.create id kind role? name? = .ok made)
    (served : made.serve w requests = (n, w', events)) :
    (n.state = .computed ↔ ∃ value, n.datum = some value) ∧
      (∀ v value?, (n.respond v (.setData value?)).1.state = .allocated → n.state = .allocated) ∧
      (n.state = .allocated → (∃ e ∈ sinceReset events, e.reserves = true) ∧
        ∀ e ∈ sinceReset events, e.stores = false) ∧
      n.explicitName.map (·.text) = lastName name? events ∧
      (∀ own, lastName name? events = some own →
        own ≠ "" ∧ own.toList.any Text.isControl = false) ∧
      n.id = id ∧ n.kind = kind ∧
      n.toText = match n.datum with
        | some value => n.name ++ ":" ++ value.toText
        | none => n.name := by
  have attested := (attested_of_create created).serve w requests
  rw [served] at attested
  refine ⟨?_, fun _ _ => allocated_of_setData, ?_, attested.name, ?_, attested.id, attested.kind,
    attested.toText⟩
  · rw [← Option.isSome_iff_exists]
    exact attested.agrees
  · intro allocated
    refine ⟨attested.reserved allocated, attested.unstored ?_⟩
    rw [allocated]
    exact DataState.noConfusion
  · intro own last
    have name := attested.name
    rw [List.nil_append, last] at name
    obtain ⟨valid, -, rfl⟩ := Option.map_eq_some_iff.1 name
    exact ⟨valid.text_ne_empty, valid.no_control⟩

/-- An integer is stored over a reservation, given up, and storage reserved anew. Its filter rejects
a truth value; a second reservation and an empty name are refused. -/
def reservedAgain : List Request :=
  [.markAllocated, .setData (some (.plain 1 (.bool true))), .setData (some (.plain 2 (.i64 7))),
    .markAllocated, .setName (some ""), .setName (some "y"), .setData none, .markAllocated]

theorem reservedAgain_serve_attested :
    ∃ made n w events, Node.create 0 (.scalar .int64 0) none (some "x") = .ok made ∧
      made.serve .start reservedAgain = (n, w, events) ∧
      events.map (·.granted) = [true, false, true, false, false, true, true, true] ∧
      n.state = .allocated ∧ (∃ e ∈ sinceReset events, e.reserves = true) ∧ n.datum = none ∧
      n.id = 0 ∧ n.toText = "y" := by
  obtain ⟨made, n, w, events, created, served, granted, allocated, without, name⟩ :
      ∃ made n w events, Node.create 0 (.scalar .int64 0) none (some "x") = .ok made ∧
        made.serve .start reservedAgain = (n, w, events) ∧
        events.map (·.granted) = [true, false, true, false, false, true, true, true] ∧
        n.state = .allocated ∧ n.datum = none ∧ n.name = "y" :=
    ⟨_, _, _, _, rfl, rfl, rfl, rfl, rfl, rfl⟩
  obtain ⟨-, -, reserved, -, -, id, -, text⟩ := serve_attested created served
  rw [without, name] at text
  exact ⟨made, n, w, events, created, served, granted, allocated, (reserved allocated).1, without,
    id, text⟩

end HostBridge.Node
