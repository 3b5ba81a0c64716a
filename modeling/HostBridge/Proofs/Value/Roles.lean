import HostBridge.Proofs.Value.Frame

/-!
# The role of a node

A node can be offered roles at any time, at its creation and later. It takes the first one that is
admitted, that is an output its operation can have, and keeps it (`Node.serve_role`). Before that an
offer is refused for its index alone; after that the operation is compared first, by its identity,
then the index, and the number of outputs does not matter any more.
-/

namespace HostBridge

/-- The operation can have the output. -/
def Role.isAdmitted (role : Role) : Bool :=
  role.owner.admits role.index

theorem Role.lt_of_isAdmitted {role : Role} {arity : Nat} (admitted : role.isAdmitted = true)
    (known : role.owner.arity = some arity) : role.index < arity := by
  unfold isAdmitted Operation.admits at admitted
  rw [known] at admitted
  exact of_decide_eq_true admitted

theorem Role.exists_of_not_isAdmitted {role : Role} (refused : role.isAdmitted = false) :
    ∃ arity, role.owner.arity = some arity ∧ ¬role.index < arity := by
  unfold isAdmitted Operation.admits at refused
  cases known : role.owner.arity with
  | none =>
    rw [known] at refused
    cases refused
  | some arity =>
    rw [known] at refused
    exact ⟨arity, rfl, of_decide_eq_false refused⟩

namespace Node

/-- The role that a request offers. -/
def Request.role? : Request → Option Role
  | .setRole role => some role
  | _ => none

/-- The roles that are offered, in order. -/
def offers (requests : List Request) : List Role :=
  requests.filterMap Request.role?

/-- The first role that is admitted. -/
def firstAdmitted (roles : List Role) : Option Role :=
  roles.find? Role.isAdmitted

/-! ## One offer -/

section SetRole

variable {n : Node} {requested : Role}

/-- A free node takes a role that the owner admits. -/
theorem setRole_admitted (unbound : n.role = none) (admitted : requested.isAdmitted = true) :
    n.setRole requested = .ok { n with role := some requested } := by
  unfold setRole
  rw [unbound]
  cases known : requested.owner.arity with
  | none => rfl
  | some arity =>
    dsimp only
    rw [if_pos (Role.lt_of_isAdmitted admitted known)]

/-- A role that is out of range is refused with the owner, the index and the arity. -/
theorem setRole_refused (unbound : n.role = none) (refused : requested.isAdmitted = false) :
    ∃ arity, requested.owner.arity = some arity ∧ n.setRole requested =
      .error (.invalidArgument
        (.outputOutOfRange requested.index requested.owner.typeName arity)) := by
  obtain ⟨arity, known, beyond⟩ := Role.exists_of_not_isAdmitted refused
  refine ⟨arity, known, ?_⟩
  unfold setRole
  rw [unbound, known]
  dsimp only
  rw [if_neg beyond]

/-- To a node in a role, the operation counts before the index. -/
theorem setRole_bound {existing : Role} (bound : n.role = some existing) :
    n.setRole requested =
      if existing.owner.id ≠ requested.owner.id then
        .error (.ownershipConflict n.name
          (.differentOwner existing.owner.id requested.owner.id))
      else if existing.index ≠ requested.index then
        .error (.ownershipConflict n.name (.differentIndex existing.index requested.index))
      else .ok n := by
  unfold setRole
  rw [bound]
  by_cases owner : existing.owner.id = requested.owner.id
  · by_cases index : existing.index = requested.index
    · simp [Role.sameBinding, owner, index]
    · simp [Role.sameBinding, Role.conflict, owner, index]
  · simp [Role.sameBinding, Role.conflict, owner]

end SetRole

section Respond

variable {n : Node} {w : World}

/-- Other requests leave the role alone. -/
theorem role_respond_of_aside {r : Request} (aside : r.role? = none) :
    (n.respond w r).1.role = n.role := by
  have request := n.request_respond w r
  have responded := n.responded w r
  generalize (n.respond w r).1 = m, (n.respond w r).2.2 = e at request responded
  subst request
  cases responded with
  | bound => cases aside
  | _ => rfl

/-- Once bound, a node keeps its role, whatever is offered. -/
theorem respond_setRole_bound {existing requested : Role} (bound : n.role = some existing) :
    (n.respond w (.setRole requested)).1 = n := by
  have answered : n.answer w (.setRole requested) = (n.setRole requested, w) := rfl
  rw [setRole_bound bound] at answered
  split at answered
  · rw [respond_of_error answered]
  · split at answered
    · rw [respond_of_error answered]
    · rw [respond_of_ok answered]

theorem respond_setRole_unbound {requested : Role} (unbound : n.role = none) :
    (n.respond w (.setRole requested)).1 =
      { n with role := firstAdmitted [requested] } := by
  have answered : n.answer w (.setRole requested) = (n.setRole requested, w) := rfl
  cases admitted : requested.isAdmitted with
  | true =>
    rw [setRole_admitted unbound admitted] at answered
    rw [respond_of_ok answered, firstAdmitted, List.find?_singleton, admitted]
    rfl
  | false =>
    obtain ⟨arity, -, refused⟩ := setRole_refused unbound admitted
    rw [refused] at answered
    rw [respond_of_error answered, firstAdmitted, List.find?_singleton, admitted]
    obtain ⟨_, _, _, _, _⟩ := n
    cases unbound
    rfl

end Respond

/-- A node in a role keeps it; one without takes what is offered if that is admitted. -/
theorem role_respond (n : Node) (w : World) (r : Request) :
    (n.respond w r).1.role = n.role.or (firstAdmitted r.role?.toList) := by
  cases r with
  | setRole requested =>
    cases bound : n.role with
    | some existing =>
      rw [respond_setRole_bound bound, bound]
      rfl
    | none =>
      rw [respond_setRole_unbound bound]
      rfl
  | _ => exact (role_respond_of_aside rfl).trans (Option.or_none).symm

/-! ## Offers one after the other -/

theorem firstAdmitted_append (earlier later : List Role) :
    firstAdmitted (earlier ++ later) = (firstAdmitted earlier).or (firstAdmitted later) :=
  List.find?_append

theorem offers_cons (r : Request) (rest : List Request) :
    offers (r :: rest) = r.role?.toList ++ offers rest := by
  cases r <;> rfl

/-- A run gives a node the role of the first offer that is admitted, unless it has one. Each step
moves the first offer from the list to the node that has answered it. -/
theorem role_serve (n : Node) (w : World) (requests : List Request) :
    (n.serve w requests).1.role = n.role.or (firstAdmitted (offers requests)) := by
  induction requests generalizing n w with
  | nil => exact (Option.or_none).symm
  | cons r rest ih =>
    rw [offers_cons, firstAdmitted_append, ← Option.or_assoc, ← role_respond n w r]
    exact ih _ _

/-- A node is created in the role it is given, which is admitted. -/
theorem role_of_create {id : Nat} {kind : Kind} {role? : Option Role} {name? : Option String}
    {made : Node} (created : Node.create id kind role? name? = .ok made) :
    made.role = firstAdmitted role?.toList := by
  cases role? with
  | none =>
    obtain ⟨own, -, rfl⟩ := ok_of_setName created
    rfl
  | some role =>
    obtain ⟨bound, given, created⟩ := ok_of_bind created
    obtain ⟨own, -, rfl⟩ := ok_of_setName created
    have unbound : (⟨id, kind, none, .empty, none⟩ : Node).role = none := rfl
    cases admitted : role.isAdmitted with
    | true =>
      rw [setRole_admitted unbound admitted] at given
      cases given
      rw [Option.toList_some, firstAdmitted, List.find?_singleton, admitted]
      rfl
    | false =>
      obtain ⟨arity, -, refused⟩ := setRole_refused unbound admitted
      rw [refused] at given
      cases given

/-- A new node of any kind, after any requests to it. Its role is the first one that was offered
and admitted, and it keeps that role whatever it is asked for. While it has none, an offer is
granted if it is admitted, and refused for its index otherwise. In a role, which its operation can
have, it grants an offer of the same output of the same operation, whatever number of outputs that
is said to have, and refuses any other for the operation or else for the index, under the name the
node has then. A refused offer changes nothing. -/
theorem serve_role {id : Nat} {kind : Kind} {role? : Option Role} {name? : Option String}
    {made n : Node} {w w' : World} {requests : List Request} {events : List Event}
    (created : Node.create id kind role? name? = .ok made)
    (served : made.serve w requests = (n, w', events)) :
    n.role = firstAdmitted (role?.toList ++ offers requests) ∧
      (n.role = none → ∀ requested v,
        (requested.isAdmitted = true → (NodeM.setRole requested).runOn n v =
          (.ok (), { n with role := some requested }, v)) ∧
        (requested.isAdmitted = false → ∃ arity, (NodeM.setRole requested).runOn n v =
          (.error (.invalidArgument
            (.outputOutOfRange requested.index requested.owner.typeName arity)), n, v))) ∧
      ∀ bound, n.role = some bound →
        (∀ arity, bound.owner.arity = some arity → bound.index < arity) ∧
        (∀ v later, (n.serve v later).1.role = some bound) ∧
        ∀ requested v, (NodeM.setRole requested).runOn n v =
          (if bound.owner.id ≠ requested.owner.id then
            .error (.ownershipConflict n.name
              (.differentOwner bound.owner.id requested.owner.id))
          else if bound.index ≠ requested.index then
            .error (.ownershipConflict n.name (.differentIndex bound.index requested.index))
          else .ok (), n, v) := by
  have role : n.role = firstAdmitted (role?.toList ++ offers requests) := by
    have last := made.role_serve w requests
    rw [served, role_of_create created, ← firstAdmitted_append] at last
    exact last
  refine ⟨role, ?_, ?_⟩
  · intro unbound requested v
    constructor
    · intro admitted
      rw [runOn_setRole, setRole_admitted unbound admitted]
      rfl
    · intro refused
      obtain ⟨arity, -, answered⟩ := setRole_refused unbound refused
      refine ⟨arity, ?_⟩
      rw [runOn_setRole, answered]
      rfl
  · intro bound held
    refine ⟨?_, ?_, ?_⟩
    · intro arity known
      exact Role.lt_of_isAdmitted (List.find?_some (role.symm.trans held)) known
    · intro v later
      rw [role_serve, held, Option.some_or]
    · intro requested v
      rw [runOn_setRole, setRole_bound held]
      split
      · rfl
      · split <;> rfl

/-- One operation by two descriptions of it. Its third output is not admitted, its second one is,
and is granted again where fewer outputs are known. -/
def secondOutput : List Request :=
  [.setRole ⟨⟨⟨1⟩, "Split", some 2⟩, 2⟩, .setRole ⟨⟨⟨1⟩, "Split", some 2⟩, 1⟩,
    .setRole ⟨⟨⟨1⟩, "Cut", some 1⟩, 1⟩]

theorem secondOutput_serve_role :
    ∃ made n w events, Node.create 0 (.bare 0) none none = .ok made ∧
      made.serve .start secondOutput = (n, w, events) ∧
      events.map (·.granted) = [false, true, true] ∧
      n.role = some ⟨⟨⟨1⟩, "Split", some 2⟩, 1⟩ ∧
      (NodeM.setRole ⟨⟨⟨2⟩, "Add", none⟩, 7⟩).runOn n w =
        (.error (.ownershipConflict "Split.1" (.differentOwner ⟨1⟩ ⟨2⟩)), n, w) := by
  obtain ⟨made, n, w, events, created, served, granted, name⟩ :
      ∃ made n w events, Node.create 0 (.bare 0) none none = .ok made ∧
        made.serve .start secondOutput = (n, w, events) ∧
        events.map (·.granted) = [false, true, true] ∧ n.name = "Split.1" :=
    ⟨_, _, _, _, rfl, rfl, rfl, rfl⟩
  obtain ⟨role, -, bound⟩ := serve_role created served
  obtain ⟨-, -, conflict⟩ := bound _ role
  refine ⟨made, n, w, events, created, served, granted, role, ?_⟩
  rw [conflict, name]
  rfl

end Node

end HostBridge
