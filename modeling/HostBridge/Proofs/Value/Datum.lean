import HostBridge.Proofs.Value.History

/-!
# Which datum a node holds

Not every request to store data is of consequence: an object that is held already is not stored
again, and one that the filter rejects is not stored. After any requests the datum is what the last
one of consequence made of it, and the filter was consulted once for each object that was given and
not held (`Node.serve_datum`). Whether an object is held is a question about what was stored, which
the filter may have replaced, so it is asked at the moment of each request.
-/

namespace HostBridge.Node

/-- The node holds that very object. -/
def Holds (n : Node) (value : HostValue) : Prop :=
  ∃ current, n.datum = some current ∧ current.id = value.id

theorem holds_iff {n : Node} {value : HostValue} :
    n.datum.any (·.same value) = true ↔ n.Holds value := by
  simp [Holds, HostValue.same, Option.any_eq_true]

instance (n : Node) (value : HostValue) : Decidable (n.Holds value) :=
  decidable_of_iff _ holds_iff

/-- A request at the moment when it comes. -/
structure Moment where
  node : Node
  world : World
  request : Request

namespace Moment

/-- The filter has to be consulted: there is an object to store that is not held. -/
def consults (m : Moment) : Bool :=
  match m.request with
  | .setData (some value) => !decide (m.node.Holds value)
  | _ => false

/-- The request is of consequence for the datum, which is to be `datum?`. -/
inductive Settles (m : Moment) : Option HostValue → Prop where
  | emptied (request : m.request = .setData none) : Settles m none
  /-- The filter accepts the object, perhaps by putting another one in its place. -/
  | filtered {value stored : HostValue} (request : m.request = .setData (some value))
      (other : ¬m.node.Holds value)
      (answer : m.node.kind.filter m.world.next value = .ok stored) : Settles m (some stored)
  /-- The answer is that something is not supported, whatever it is. -/
  | unfiltered {value : HostValue} {name : String} {capability : Capability}
      (request : m.request = .setData (some value)) (other : ¬m.node.Holds value)
      (answer : m.node.kind.filter m.world.next value = .error (.unsupported name capability)) :
      Settles m (some value)

end Moment

/-- The moments of requests one after the other. -/
def moments (n : Node) (w : World) : List Request → List Moment
  | [] => []
  | r :: rest => ⟨n, w, r⟩ :: (n.respond w r).1.moments (n.respond w r).2.1 rest

/-! ## One request -/

theorem exists_of_isUnsupported {e : ValueError} (unsupported : e.isUnsupported = true) :
    ∃ name capability, e = .unsupported name capability := by
  cases e with
  | unsupported name capability => exact ⟨name, capability, rfl⟩
  | _ => cases unsupported

section Answer

variable {n : Node} {w : World} {value : HostValue}

/-- The value that is held is accepted again without the filter. -/
theorem answer_held (held : n.Holds value) : n.answer w (.setData (some value)) = (.ok n, w) := by
  unfold answer setData
  dsimp only
  rw [if_pos (holds_iff.2 held)]

/-- What is not held goes through the filter. -/
theorem answer_other (other : ¬n.Holds value) :
    n.answer w (.setData (some value)) =
      (match n.kind.filter w.next value with
        | .ok stored => .ok { n with slot := .holding stored }
        | .error e => if e.isUnsupported then .ok { n with slot := .holding value } else .error e,
        (n.kind.consult value w).2) := by
  unfold answer setData
  dsimp only
  rw [if_neg (mt holds_iff.1 other)]
  unfold Kind.consult
  cases n.kind.filter w.next value with
  | ok stored => rfl
  | error e =>
    dsimp only
    split <;> rfl

/-- What the filter accepts is stored in the form it gives. -/
theorem answer_filtered {stored : HostValue} (other : ¬n.Holds value)
    (accepted : n.kind.filter w.next value = .ok stored) :
    n.answer w (.setData (some value)) =
      (.ok { n with slot := .holding stored }, (n.kind.consult value w).2) := by
  rw [answer_other other, accepted]

/-- Where there is no filter the value is stored as it is. -/
theorem answer_unfiltered {e : ValueError} (other : ¬n.Holds value)
    (failed : n.kind.filter w.next value = .error e) (unsupported : e.isUnsupported = true) :
    n.answer w (.setData (some value)) =
      (.ok { n with slot := .holding value }, (n.kind.consult value w).2) := by
  rw [answer_other other, failed]
  dsimp only
  rw [if_pos unsupported]

/-- What the filter rejects is not stored, though the filter was asked. -/
theorem answer_rejected {e : ValueError} (other : ¬n.Holds value)
    (failed : n.kind.filter w.next value = .error e) (rejected : ¬e.isUnsupported = true) :
    n.answer w (.setData (some value)) = (.error e, (n.kind.consult value w).2) := by
  rw [answer_other other, failed]
  dsimp only
  rw [if_neg rejected]

end Answer

section Respond

variable {n : Node} {w : World}

theorem world_respond (n : Node) (w : World) (r : Request) :
    (n.respond w r).2.1 = (n.answer w r).2 := by
  cases answered : n.answer w r with
  | mk answer w' =>
    cases answer with
    | ok m => rw [respond_of_ok answered]
    | error e => rw [respond_of_error answered]

/-- Only a request about data changes the datum. -/
theorem datum_respond_of_aside {r : Request} (aside : ∀ value?, r ≠ .setData value?) :
    (n.respond w r).1.datum = n.datum := by
  have request := n.request_respond w r
  have responded := n.responded w r
  generalize (n.respond w r).1 = m, (n.respond w r).2.2 = e at request responded
  subst request
  cases responded with
  | emptied => exact absurd rfl (aside _)
  | stored => exact absurd rfl (aside _)
  | _ => rfl

end Respond

section Moment

variable {m : Moment}

/-- A moment that settles the datum leaves the datum it says. -/
theorem datum_respond_of_settles {datum? : Option HostValue} (settles : m.Settles datum?) :
    (m.node.respond m.world m.request).1.datum = datum? := by
  cases settles with
  | emptied request =>
    rw [request]
    rfl
  | filtered request other accepted =>
    rw [request, respond_of_ok (answer_filtered other accepted)]
    rfl
  | unfiltered request other failed =>
    rw [request, respond_of_ok (answer_unfiltered other failed rfl)]
    rfl

/-- A moment that does not settle the datum leaves it as it was. -/
theorem datum_respond_of_unsettled (unsettled : ∀ datum?, ¬m.Settles datum?) :
    (m.node.respond m.world m.request).1.datum = m.node.datum := by
  cases request : m.request with
  | setData value? =>
    cases value? with
    | none => exact absurd (.emptied request) (unsettled _)
    | some value =>
      by_cases held : m.node.Holds value
      · rw [respond_of_ok (answer_held held)]
      · cases answer : m.node.kind.filter m.world.next value with
        | ok stored => exact absurd (.filtered request held answer) (unsettled _)
        | error e =>
          by_cases unsupported : e.isUnsupported = true
          · obtain ⟨name, capability, rfl⟩ := exists_of_isUnsupported unsupported
            exact absurd (.unfiltered request held answer) (unsettled _)
          · rw [respond_of_error (answer_rejected held answer unsupported)]
  | _ => exact datum_respond_of_aside fun _ => Request.noConfusion

/-- The filter is called at most once for a request, and only at moments that consult it. -/
theorem filterCalls_respond :
    (m.node.respond m.world m.request).2.1.filterCalls =
      if m.consults then m.node.kind.ident :: m.world.filterCalls else m.world.filterCalls := by
  rw [world_respond]
  unfold Moment.consults
  cases m.request with
  | setData value? =>
    cases value? with
    | none => rfl
    | some value =>
      by_cases held : m.node.Holds value
      · rw [answer_held held]
        simp [held]
      · rw [answer_other held]
        simp [held, Kind.consult]
  | _ => rfl

end Moment

/-! ## Requests one after the other -/

section Serve

variable {n : Node} {w : World} {requests : List Request}

theorem kind_of_mem_moments {m : Moment} (mem : m ∈ n.moments w requests) :
    m.node.kind = n.kind := by
  induction requests generalizing n w with
  | nil => cases mem
  | cons r rest ih =>
    rcases List.mem_cons.1 mem with rfl | mem
    · rfl
    · exact (ih mem).trans (n.responded w r).same.2

/-- Where no moment settles the datum, it is the one from before. -/
theorem datum_serve_of_unsettled
    (unsettled : ∀ m ∈ n.moments w requests, ∀ datum?, ¬m.Settles datum?) :
    (n.serve w requests).1.datum = n.datum := by
  induction requests generalizing n w with
  | nil => rfl
  | cons r rest ih =>
    have first := datum_respond_of_unsettled (unsettled ⟨n, w, r⟩ List.mem_cons_self)
    exact (ih fun m mem => unsettled m (List.mem_cons_of_mem _ mem)).trans first

/-- The last moment that settles the datum decides it. Moments follow the requests one by one, so a
split of the moments splits the run as well. -/
theorem datum_serve_of_settles {before after : List Moment} {m : Moment}
    {datum? : Option HostValue} (split : n.moments w requests = before ++ m :: after)
    (settles : m.Settles datum?) (last : ∀ later ∈ after, ∀ datum?, ¬later.Settles datum?) :
    (n.serve w requests).1.datum = datum? := by
  induction requests generalizing n w before with
  | nil =>
    have length := congrArg List.length split
    simp [moments] at length
  | cons r rest ih =>
    cases before with
    | nil =>
      obtain ⟨rfl, rfl⟩ := List.cons.inj split
      exact (datum_serve_of_unsettled last).trans (datum_respond_of_settles settles)
    | cons first before => exact ih (List.cons.inj split).2

/-- A run adds one call for each moment at which the filter is consulted, all of them by the one
kind that the node has throughout. -/
theorem filterCalls_serve :
    (n.serve w requests).2.1.filterCalls =
      List.replicate ((n.moments w requests).countP Moment.consults) n.kind.ident ++
        w.filterCalls := by
  induction requests generalizing n w with
  | nil => rfl
  | cons r rest ih =>
    have later := ih (n := (n.respond w r).1) (w := (n.respond w r).2.1)
    rw [(n.responded w r).same.2, filterCalls_respond (m := ⟨n, w, r⟩)] at later
    rw [moments, List.countP_cons]
    refine later.trans ?_
    split
    · rw [List.replicate_succ', List.append_assoc, List.singleton_append]
    · rfl

end Serve

/-- After any requests to a new node of any kind, whatever its filter: the datum is what the last
request of consequence made of it, and there is none if no request was of consequence. At each
moment the filter was consulted once if an object was given that was not held, and not at all
otherwise. -/
theorem serve_datum {id : Nat} {kind : Kind} {role? : Option Role} {name? : Option String}
    {made : Node} (created : Node.create id kind role? name? = .ok made) (w : World)
    (requests : List Request) :
    (∀ before m after datum?, made.moments w requests = before ++ m :: after →
        m.Settles datum? → (∀ later ∈ after, ∀ datum?, ¬later.Settles datum?) →
        (made.serve w requests).1.datum = datum?) ∧
      ((∀ m ∈ made.moments w requests, ∀ datum?, ¬m.Settles datum?) →
        (made.serve w requests).1.datum = none) ∧
      (∀ m ∈ made.moments w requests, (m.node.respond m.world m.request).2.1.filterCalls =
        if m.consults then kind.ident :: m.world.filterCalls else m.world.filterCalls) ∧
      (made.serve w requests).2.1.filterCalls =
        List.replicate ((made.moments w requests).countP Moment.consults) kind.ident ++
          w.filterCalls := by
  have same : made.kind = kind := (attested_of_create created).kind
  refine ⟨fun before m after datum? => datum_serve_of_settles, ?_, ?_, ?_⟩
  · intro unsettled
    obtain ⟨_, _, _, rfl⟩ := ok_of_create created
    exact datum_serve_of_unsettled unsettled
  · intro m mem
    rw [filterCalls_respond, kind_of_mem_moments mem, same]
  · rw [filterCalls_serve, same]

/-- The integer 7 is given to a node of real numbers, which replaces it, and is given again. Then
the number that is held is given, and a truth value, which is rejected. -/
def sevenTwice : List Request :=
  [.setData (some (.plain 1 (.i64 7))), .setData (some (.plain 1 (.i64 7))),
    .setData (some (.plain 4 (.f64 ⟨0x401c000000000000⟩))), .setData (some (.plain 2 (.bool true)))]

theorem sevenTwice_serve_datum :
    ∃ made n w events, Node.create 0 (.scalar .float64 0) none none = .ok made ∧
      made.serve ⟨3, []⟩ sevenTwice = (n, w, events) ∧
      events.map (·.granted) = [true, true, true, false] ∧
      n.datum = some (.plain 4 (.f64 ⟨0x401c000000000000⟩)) ∧ w.filterCalls = [0, 0, 0] := by
  have created : Node.create 0 (.scalar .float64 0) none none =
      .ok ⟨0, .scalar .float64 0, none, .empty, none⟩ := rfl
  obtain ⟨last, -, -, calls⟩ := serve_datum created ⟨3, []⟩ sevenTwice
  refine ⟨_, _, _, _, created, rfl, rfl,
    last [_] _ [_, _] _ rfl (.filtered rfl (by decide) rfl) ?_, calls⟩
  intro later mem datum? settles
  rcases List.mem_pair.1 mem with rfl | rfl
  · cases settles with
    | emptied request => cases request
    | filtered request other =>
      cases request
      exact other (by decide)
    | unfiltered request other =>
      cases request
      exact other (by decide)
  · cases settles with
    | emptied request => cases request
    | filtered request _ accepted =>
      cases request
      cases accepted
    | unfiltered request _ failed =>
      cases request
      cases failed

end HostBridge.Node
