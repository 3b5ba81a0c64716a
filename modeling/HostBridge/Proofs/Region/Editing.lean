import HostBridge.Proofs.Region.Extraction

/-!
# Edits

The bodies that keep references balanced: sequences of edits on the native variables of a
region's bindings. A change moves values between variables; other edits may leave for the
label that the body was given.

`Contents` is what a body does without a heap: what each binding has, and the values of the
objects there are. Each change does to the machine what `Contents.apply` says, as long as
boxing works (`Plan.run_change`).
-/

namespace HostBridge

/-- A change of native variables. `share` copies a handle, and `box` goes by way of a scalar
variable of its own. -/
inductive Change where
  | store (var : String) (value : Literal)
  | share (dst src : String)
  | box (dst temp : String) (value : Literal)
  | clear (dst : String)
  deriving DecidableEq

namespace Change

def code : Change → Block
  | store var value => [.store var value]
  | share dst src =>
    [.incRef (.native src), .decRef (.native dst), .assign (.native dst) (.native src)]
  | box dst temp value =>
    [.declare temp (.scalar value.scalarType), .store temp value, .decRef (.native dst),
      .box (.native dst) temp value.scalarType]
  | clear dst => [.decRef (.native dst), .clear (.native dst)]

/-- The variables are bindings of the right types, and the temporary one is no binding. -/
def Fits (types : String → Option VarType) : Change → Prop
  | store var value => types var = some (.scalar value.scalarType)
  | share dst src => types dst = some .handle ∧ types src = some .handle
  | box dst temp _ => types dst = some .handle ∧ types temp = none
  | clear dst => types dst = some .handle

/-- Only boxing can fail. -/
def Works (boxingFails : Bool) : Change → Prop
  | box .. => boxingFails = false
  | _ => True

theorem works_of_boxing (c : Change) : c.Works false := by
  cases c with
  | box => rfl
  | _ => trivial

end Change

/-- A change, or something that may leave for the label that the body was given: unboxing a
handle into a scalar variable of its own, a test for null, or nothing else. -/
inductive Edit where
  | change (change : Change)
  | unbox (temp src : String) (type : ScalarType)
  | leaveIfNull (var : String)
  | leave
  deriving DecidableEq

namespace Edit

def code (fail : Label) : Edit → Block
  | change c => c.code
  | unbox temp src type => [.declare temp (.scalar type), .unbox temp (.native src) type fail]
  | leaveIfNull var => [.gotoIfNull (.native var) fail]
  | leave => [.goto fail]

/-- The variables are bindings of the right types, and the temporary one is no binding. -/
def Fits (types : String → Option VarType) : Edit → Prop
  | change c => c.Fits types
  | unbox temp src _ => types temp = none ∧ types src = some .handle
  | leaveIfNull var => types var = some .handle
  | leave => True

end Edit

/-- What the bindings have, and the values of the objects there are. -/
structure Contents where
  entries : String → Option VarContent
  values : Array HeapValue

namespace Contents

/-- What extraction gives. -/
def start (h : Host) (types : String → Option VarType) : Contents where
  entries := fun name => (types name).bind (h.reading name)
  values := h.objects.map (·.value)

def set (c : Contents) (name : String) (content : Option VarContent) : Contents :=
  { c with entries := fun other => if name = other then content else c.entries other }

/-- What a change does: `share` copies an entry, and `box` makes a new object. -/
def apply (c : Contents) : Change → Contents
  | .store var value => c.set var (some (.scalar value))
  | .share dst src => c.set dst (c.entries src)
  | .box dst _ value =>
    { c.set dst (some (.handle (some c.values.size))) with values := c.values.push (.scalar value) }
  | .clear dst => c.set dst (some (.handle none))

/-- The machine has it so. -/
structure Shown (types : String → Option VarType) (c : Contents) (m : Machine) : Prop where
  entries : ∀ name type, types name = some type → m.vars.get? name = c.entries name
  values : ∀ a, m.host.value? a = c.values[a]?

section Shown

variable {types : String → Option VarType} {c : Contents} {m m' : Machine} {v : String}

theorem Shown.size (shown : c.Shown types m) : m.host.objects.size = c.values.size := by
  have out (a : Address) : m.host.objects.size ≤ a ↔ c.values.size ≤ a := by
    rw [← Host.value?_eq_none_iff, shown.values, Array.getElem?_eq_none_iff]
  have := (out m.host.objects.size).1 (Nat.le_refl _)
  have := (out c.values.size).2 (Nat.le_refl _)
  omega

/-- Writing a variable of the machine writes it in the contents. -/
theorem Shown.put {content : VarContent} (shown : c.Shown types m)
    (vars : m'.vars = m.vars.put v content) (values : ∀ a, m'.host.value? a = m.host.value? a) :
    (c.set v (some content)).Shown types m' := by
  refine ⟨fun name type declared => ?_, fun a => (values a).trans (shown.values a)⟩
  rw [vars, Table.get?_put, set]
  dsimp only
  rw [shown.entries name type declared]

/-- A variable that is no binding does not show. -/
theorem Shown.put_other {content : VarContent} (shown : c.Shown types m) (other : types v = none)
    (vars : m'.vars = m.vars.put v content) (values : ∀ a, m'.host.value? a = m.host.value? a) :
    c.Shown types m' := by
  refine ⟨fun name type declared => ?_, fun a => (values a).trans (shown.values a)⟩
  have ne : v ≠ name := by
    rintro rfl
    cases other.symm.trans declared
  rw [vars, Table.get?_put, if_neg ne]
  exact shown.entries name type declared

end Shown

end Contents

/-- Nothing that can be seen from outside has changed. -/
structure Machine.Silent (m m' : Machine) : Prop where
  trace : m'.trace = m.trace
  slots : m'.host.slots = m.host.slots
  boxingFails : m'.host.boxingFails = m.host.boxingFails

theorem Machine.Silent.refl (m : Machine) : m.Silent m :=
  ⟨rfl, rfl, rfl⟩

theorem Machine.Silent.trans {m mid m' : Machine} (first : m.Silent mid) (second : mid.Silent m') :
    m.Silent m' :=
  ⟨second.trace.trans first.trace, second.slots.trans first.slots,
    second.boxingFails.trans first.boxingFails⟩

namespace Plan

open Machine

variable {code : Block} {types : String → Option VarType} {failed : Label} {h : Host}
  {rungs : List Rung} {m : Machine} {rest : Block}

theorem Standing.mem_owners (standing : Standing types failed rungs) {v : String}
    (type : types v = some .handle) : v ∈ owners types rungs :=
  Plan.mem_owners.2 ⟨standing.covers v _ type, type⟩

theorem not_mem_owners {v : String} (type : types v ≠ some .handle) : v ∉ owners types rungs :=
  fun mem => type (Plan.mem_owners.1 mem).2

/-- What a change leaves: the references are still settled, nothing shows outside, and the
contents are what they ought to be. -/
structure ChangedBy (types : String → Option VarType) (h : Host) (rungs : List Rung)
    (change : Change) (m m' : Machine) : Prop where
  holding : Holding types h rungs m'
  silent : m.Silent m'
  shown : change.Works m.host.boxingFails → ∀ c : Contents, c.Shown types m →
    (c.apply change).Shown types m' ∧ m'.host.reports = m.host.reports

/-- A stored scalar replaces one of its type. -/
theorem change_store {var : String} {value : Literal} (holding : Holding types h rungs m)
    (type : types var = some (.scalar value.scalarType))
    (at_ : m.ahead code = (Change.store var value).code ++ rest) :
    ∃ m', Forward code m m' ∧ m'.ahead code = rest ∧
      ChangedBy types h rungs (.store var value) m m' := by
  obtain ⟨old, there, oldType⟩ := holding.typed.scalar type
  obtain ⟨store, ahead⟩ := Forward.one at_ (step_store there oldType) rfl
  have out : var ∉ owners types rungs := not_mem_owners (by rw [type]; simp)
  refine ⟨_, store, ahead, holding.put out (.scalar value) ?_ rfl rfl, ⟨rfl, rfl, rfl⟩, ?_⟩
  · intro type' declared
    cases type.symm.trans declared
    rfl
  · exact fun _ c shown => ⟨shown.put rfl fun _ => rfl, rfl⟩

theorem change_share {dst src : String} (standing : Standing types failed rungs)
    (holding : Holding types h rungs m) (type : types dst = some .handle)
    (type' : types src = some .handle) (at_ : m.ahead code = (Change.share dst src).code ++ rest) :
    ∃ m', Forward code m m' ∧ m'.ahead code = rest ∧
      ChangedBy types h rungs (.share dst src) m m' := by
  obtain ⟨old, there⟩ := holding.typed.handle type
  obtain ⟨new, source⟩ := holding.typed.handle type'
  have live := holding.usable (standing.mem_owners type') source
  have live' := (holding.usable (standing.mem_owners type) there).acquire live
  obtain ⟨acquire, ahead⟩ := Forward.one at_ (step_incRef (readHandle_native source) live) rfl
  obtain ⟨giveBack, ahead⟩ :=
    Forward.one ahead (step_decRef (readHandle_native there) live') rfl
  obtain ⟨copy, ahead⟩ :=
    Forward.one ahead (step_assign_native (readHandle_native source) there) rfl
  refine ⟨_, acquire.trans (giveBack.trans copy), ahead, ?_, ⟨rfl, ?_, ?_⟩, fun _ c shown => ⟨?_, ?_⟩⟩
  · refine holding.replace standing.nodup_owners (standing.mem_owners type) there ?_ rfl fun a => ?_
    · simp
    · dsimp only
      rw [Host.count_adjust live', Host.count_adjust live]
      omega
  · simp
  · simp
  · rw [Contents.apply, ← shown.entries src _ type', source]
    exact shown.put rfl fun a => by simp
  · simp

/-- The handle is given back and the variable is null. -/
theorem change_clear {dst : String} (standing : Standing types failed rungs)
    (holding : Holding types h rungs m) (type : types dst = some .handle)
    (at_ : m.ahead code = (Change.clear dst).code ++ rest) :
    ∃ m', Forward code m m' ∧ m'.ahead code = rest ∧ ChangedBy types h rungs (.clear dst) m m' := by
  obtain ⟨old, there⟩ := holding.typed.handle type
  have live := holding.usable (standing.mem_owners type) there
  obtain ⟨giveBack, ahead⟩ := Forward.one at_ (step_decRef (readHandle_native there) live) rfl
  obtain ⟨clear, ahead⟩ := Forward.one ahead (step_clear_native there) rfl
  refine ⟨_, giveBack.trans clear, ahead, ?_, ⟨rfl, ?_, ?_⟩, fun _ c shown => ⟨?_, ?_⟩⟩
  · refine holding.replace standing.nodup_owners (standing.mem_owners type) there ?_ rfl fun a => ?_
    · simp
    · dsimp only
      rw [Host.count_adjust live, refs_none]
      omega
  · simp
  · simp
  · exact shown.put rfl fun a => by simp
  · simp

/-- A variable that is no binding, and that nobody sees. -/
theorem declare_other {temp : String} {type : ScalarType} (holding : Holding types h rungs m)
    (untyped : types temp = none) (at_ : m.ahead code = .declare temp (.scalar type) :: rest) :
    ∃ m', Forward code m m' ∧ m'.ahead code = rest ∧ Holding types h rungs m' ∧
      m'.host = m.host ∧ m'.trace = m.trace ∧
      m'.vars.get? temp = some (.scalar (.zero type)) ∧
      ∀ c : Contents, c.Shown types m → c.Shown types m' := by
  obtain ⟨declare, ahead⟩ := Forward.one at_ (step_declare temp (.scalar type)) rfl
  refine ⟨_, declare, ahead, ?_, rfl, rfl, ?_, fun c shown => ?_⟩
  · refine holding.put (not_mem_owners (by rw [untyped]; simp)) _ (fun type declared => ?_) rfl rfl
    cases untyped.symm.trans declared
  · rw [Table.get?_put, if_pos rfl]
    rfl
  · exact shown.put_other untyped rfl fun _ => rfl

/-- Storing in such a variable is not seen either. -/
theorem store_other {temp : String} {value old : Literal} (holding : Holding types h rungs m)
    (untyped : types temp = none) (there : m.vars.get? temp = some (.scalar old))
    (oldType : old.scalarType = value.scalarType) (at_ : m.ahead code = .store temp value :: rest) :
    ∃ m', Forward code m m' ∧ m'.ahead code = rest ∧ Holding types h rungs m' ∧
      m'.host = m.host ∧ m'.trace = m.trace ∧ m'.vars.get? temp = some (.scalar value) ∧
      ∀ c : Contents, c.Shown types m → c.Shown types m' := by
  obtain ⟨store, ahead⟩ := Forward.one at_ (step_store there oldType) rfl
  refine ⟨_, store, ahead, ?_, rfl, rfl, ?_, fun c shown => ?_⟩
  · refine holding.put (not_mem_owners (by rw [untyped]; simp)) _ (fun type declared => ?_) rfl rfl
    cases untyped.symm.trans declared
  · rw [Table.get?_put, if_pos rfl]
  · exact shown.put_other untyped rfl fun _ => rfl

/-- Boxing what a variable has into an owner, once the owner's reference is given back. -/
theorem box_source {dst temp : String} {value : Literal} (standing : Standing types failed rungs)
    (holding : Holding types h rungs m) (type : types dst = some .handle)
    (source : m.vars.get? temp = some (.scalar value))
    (at_ : m.ahead code =
      .decRef (.native dst) :: .box (.native dst) temp value.scalarType :: rest) :
    ∃ m', Forward code m m' ∧ m'.ahead code = rest ∧
      ChangedBy types h rungs (.box dst temp value) m m' := by
  obtain ⟨old, there⟩ := holding.typed.handle type
  have mem := standing.mem_owners type
  have live := holding.usable mem there
  obtain ⟨giveBack, ahead⟩ := Forward.one at_ (step_decRef (readHandle_native there) live) rfl
  cases flag : m.host.boxingFails with
  | false =>
    obtain ⟨box, ahead⟩ := Forward.one ahead (step_box_native source there (by simpa using flag)) rfl
    refine ⟨_, giveBack.trans box, ahead, ?_, ⟨rfl, ?_, ?_⟩, fun _ c shown => ⟨⟨?_, ?_⟩, ?_⟩⟩
    · refine holding.replace standing.nodup_owners mem there ?_ rfl fun a => ?_
      · simp [Host.allocate]
      · dsimp only
        rw [Host.size_adjust]
        exact Host.count_allocate_adjust live _ a
    · simp [Host.allocate]
    · simp [Host.allocate]
    · intro name type' declared
      dsimp only [Contents.apply, Contents.set]
      rw [Table.get?_put, Host.size_adjust, shown.size, shown.entries name type' declared]
    · intro a
      dsimp only [Contents.apply, Contents.set]
      rw [Host.value?_allocate, Host.size_adjust, Host.value?_adjust, shown.size, shown.values,
        Array.getElem?_push]
    · simp [Host.allocate]
  | true =>
    obtain ⟨box, ahead⟩ :=
      Forward.one ahead (step_box_native_failed source there (by simpa using flag)) rfl
    refine ⟨_, giveBack.trans box, ahead, ?_, ⟨rfl, ?_, ?_⟩, fun works => ?_⟩
    · refine holding.replace standing.nodup_owners mem there ?_ rfl fun a => ?_
      · simp [Host.report]
      · dsimp only
        rw [Host.count_report, Host.count_adjust live, refs_none]
        omega
    · simp [Host.report]
    · simp [Host.report]
    · cases works.symm.trans flag

/-- The scalar goes through a variable of its own, which no name of the region is. -/
theorem change_box {dst temp : String} {value : Literal} (standing : Standing types failed rungs)
    (holding : Holding types h rungs m) (type : types dst = some .handle)
    (untyped : types temp = none) (at_ : m.ahead code = (Change.box dst temp value).code ++ rest) :
    ∃ m', Forward code m m' ∧ m'.ahead code = rest ∧
      ChangedBy types h rungs (.box dst temp value) m m' := by
  obtain ⟨mid, declare, ahead, holding₁, host₁, trace₁, zero, shows₁⟩ :=
    declare_other holding untyped at_
  obtain ⟨mid', store, ahead, holding₂, host₂, trace₂, source, shows₂⟩ :=
    store_other holding₁ untyped zero (Literal.scalarType_zero _) ahead
  obtain ⟨m', box, ahead', changed⟩ := box_source standing holding₂ type source ahead
  have host := host₂.trans host₁
  refine ⟨m', declare.trans (store.trans box), ahead', changed.holding, ⟨?_, ?_, ?_⟩,
    fun works c shown => ?_⟩
  · rw [changed.silent.trace, trace₂, trace₁]
  · rw [changed.silent.slots, host]
  · rw [changed.silent.boxingFails, host]
  · rw [← host] at works ⊢
    exact changed.shown works c (shows₂ c (shows₁ c shown))

/-- Each change does to a machine what it does to the contents. -/
theorem run_change {change : Change} (standing : Standing types failed rungs)
    (holding : Holding types h rungs m) (fits : change.Fits types)
    (at_ : m.ahead code = change.code ++ rest) :
    ∃ m', Forward code m m' ∧ m'.ahead code = rest ∧ ChangedBy types h rungs change m m' := by
  cases change with
  | store var value => exact change_store holding fits at_
  | share dst src => exact change_share standing holding fits.1 fits.2 at_
  | box dst temp value => exact change_box standing holding fits.1 fits.2 at_
  | clear dst => exact change_clear standing holding fits at_

/-- A sequence of changes does what it does to the contents. -/
theorem run_changes {changes : List Change} (standing : Standing types failed rungs)
    (holding : Holding types h rungs m) (fits : ∀ c ∈ changes, c.Fits types)
    (works : ∀ c ∈ changes, c.Works m.host.boxingFails)
    (at_ : m.ahead code = changes.flatMap Change.code ++ rest) {c : Contents}
    (shown : c.Shown types m) :
    ∃ m', Forward code m m' ∧ m'.ahead code = rest ∧ Holding types h rungs m' ∧ m.Silent m' ∧
      (changes.foldl Contents.apply c).Shown types m' ∧ m'.host.reports = m.host.reports := by
  induction changes generalizing m c with
  | nil => exact ⟨m, .refl m, at_, holding, .refl m, shown, rfl⟩
  | cons change changes ih =>
    have here := List.mem_cons_self (a := change) (l := changes)
    rw [List.flatMap_cons, List.append_assoc] at at_
    obtain ⟨mid, first, ahead, changed⟩ := run_change standing holding (fits change here) at_
    obtain ⟨shown', reports⟩ := changed.shown (works change here) c shown
    obtain ⟨m', forward, ahead', holding', silent, shown'', reports'⟩ :=
      ih changed.holding (fun c mem => fits c (List.mem_cons_of_mem _ mem))
        (fun c mem => changed.silent.boxingFails ▸ works c (List.mem_cons_of_mem _ mem)) ahead shown'
    exact ⟨m', first.trans forward, ahead', holding', changed.silent.trans silent, shown'',
      reports'.trans reports⟩

/-! ## Edits that leave -/

section Edits

variable {fail : Label} {landing : Block} {i : Nat}

/-- An edit goes on with the rest of the body or leaves. -/
theorem run_edit {edit : Edit} (standing : Standing types failed rungs)
    (holding : Holding types h rungs m) (fits : edit.Fits types)
    (position : code.position? fail = some i) (target : code.drop i = landing)
    (shorter : landing.length ≤ rest.length) (at_ : m.ahead code = edit.code fail ++ rest) :
    ∃ m', Forward code m m' ∧ Holding types h rungs m' ∧
      (m'.ahead code = rest ∨ m'.ahead code = landing) := by
  have landed : (code.drop i).length ≤ rest.length := by rwa [target]
  cases edit with
  | change c =>
    obtain ⟨m', forward, ahead, changed⟩ := run_change standing holding fits at_
    exact ⟨m', forward, changed.holding, .inl ahead⟩
  | unbox temp src type =>
    obtain ⟨untyped, type_src⟩ := fits
    obtain ⟨mid, declare, ahead, holding', -, -, zero, -⟩ := declare_other holding untyped at_
    obtain ⟨handle, there⟩ := holding'.typed.handle type_src
    have live := holding'.usable (standing.mem_owners type_src) there
    cases found : mid.host.scalarAt handle type with
    | none =>
      have leave := Forward.jump ahead
        (step_unbox_refused (readHandle_native there) live found position) landed
      exact ⟨_, declare.trans leave, holding'.report rfl rfl, .inr target⟩
    | some value =>
      obtain ⟨unbox, ahead⟩ := Forward.one ahead
        (step_unbox (readHandle_native there) live found zero (Literal.scalarType_zero _)) rfl
      refine ⟨_, declare.trans unbox, ?_, .inl ahead⟩
      refine holding'.put (not_mem_owners (by rw [untyped]; simp)) _ (fun type declared => ?_) rfl rfl
      cases untyped.symm.trans declared
  | leaveIfNull var =>
    obtain ⟨handle, there⟩ := holding.typed.handle fits
    cases handle with
    | none =>
      have run := step_gotoIfNull_of_none (readHandle_native there) position
      exact ⟨_, Forward.jump at_ run landed, ⟨holding.typed, holding.settled, holding.slots⟩,
        .inr target⟩
    | some a =>
      obtain ⟨go, ahead⟩ := Forward.one at_ (step_gotoIfNull_of_some (readHandle_native there)) rfl
      exact ⟨_, go, ⟨holding.typed, holding.settled, holding.slots⟩, .inl ahead⟩
  | leave =>
    exact ⟨_, Forward.jump at_ (step_goto position) landed,
      ⟨holding.typed, holding.settled, holding.slots⟩, .inr target⟩

/-- The whole body ends at its end or where its label leads. -/
theorem run_edits {edits : List Edit} (standing : Standing types failed rungs)
    (holding : Holding types h rungs m) (fits : ∀ e ∈ edits, e.Fits types)
    (position : code.position? fail = some i) (target : code.drop i = landing)
    (shorter : landing.length ≤ rest.length)
    (at_ : m.ahead code = edits.flatMap (Edit.code fail) ++ rest) :
    ∃ m', Forward code m m' ∧ Holding types h rungs m' ∧
      (m'.ahead code = rest ∨ m'.ahead code = landing) := by
  induction edits generalizing m with
  | nil => exact ⟨m, .refl m, holding, .inl at_⟩
  | cons edit edits ih =>
    rw [List.flatMap_cons, List.append_assoc] at at_
    have shorter' : landing.length ≤ (edits.flatMap (Edit.code fail) ++ rest).length := by
      rw [List.length_append]
      omega
    obtain ⟨mid, first, holding', outcome⟩ :=
      run_edit standing holding (fits edit (List.mem_cons_self ..)) position target shorter' at_
    rcases outcome with ahead | left
    · obtain ⟨m', forward, holding'', outcome'⟩ :=
        ih holding' (fun e mem => fits e (List.mem_cons_of_mem _ mem)) ahead
      exact ⟨m', first.trans forward, holding'', outcome'⟩
    · exact ⟨mid, first, holding', .inr left⟩

end Edits

end Plan
end HostBridge
