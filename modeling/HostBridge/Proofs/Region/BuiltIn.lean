import HostBridge.Proofs.Region.Assembly
import HostBridge.Proofs.Run.Ledger
import HostBridge.Proofs.Run.Statement
import HostBridge.Value.Kind.Handle
import HostBridge.Value.Kind.Scalar

/-!
# Regions of built-in values

Plans that come about by `start` and `bind` bind each name once (`Plan.Grown.nodup`), so a
name has one type, `Plan.typeOf?`. Where all values are handles and scalars, the code of
each rung is known: `Rung.Standard`. Phase by phase the proofs about such regions use
that alone, through `Plan.Standing`.
-/

namespace HostBridge

/-- Plans that come about: a start, and bindings that were accepted. -/
inductive Plan.Grown (abi : Abi) : Plan → Prop where
  | start {stem : String} {p : Plan} (ok : Plan.start stem abi = .ok p) : Grown abi p
  | bind {p q : Plan} {n : Node} {b : Binding} {terminal : Terminal} (grown : Grown abi p)
      (ok : p.bind n b terminal = .ok q) : Grown abi q

/-- A host whose only object is an integer that both slots hold. -/
def sharedInteger : Host :=
  ⟨#[⟨.scalar (.int 3), 2⟩], [("a", some 0), ("n", some 0)], #[], false⟩

/-- The node is a handle or a scalar. -/
def Node.IsBuiltIn (n : Node) : Prop :=
  (∃ ident, n.kind = .handle ident) ∨ ∃ type ident, n.kind = .scalar type ident

/-- The type of a built-in value's native variable. -/
def Entry.varType (e : Entry) : VarType :=
  match e.node.kind.scalar? with
  | some type => .scalar type
  | none => .handle

namespace Plan

/-- The type of the native variable of a bound name. -/
def typeOf? (p : Plan) (name : String) : Option VarType :=
  (p.entries.find? fun e => e.binding.text == name).map Entry.varType

/-- An accepted binding comes last, and no earlier one has objected to it. -/
theorem eq_of_bind {p q : Plan} {n : Node} {b : Binding} {terminal : Terminal}
    (ok : p.bind n b terminal = .ok q) :
    q = { p with entries := p.entries ++ [⟨n, b, terminal⟩] } ∧
      ∀ e ∈ p.entries, p.objection? n b e = none := by
  unfold bind at ok
  split at ok
  · cases ok
  · next silent =>
    cases ok
    exact ⟨rfl, List.findSome?_eq_none_iff.1 silent⟩

/-- Where an entry does not object, the new name is another one. -/
theorem binding_ne_of_silent {p : Plan} {n : Node} {b : Binding} {e : Entry}
    (silent : p.objection? n b e = none) : e.binding.text ≠ b.text := by
  intro same
  obtain ⟨_, ⟨text, _⟩, _⟩ := e
  obtain ⟨text', _⟩ := b
  cases same
  unfold objection? at silent
  split at silent
  · cases silent
  · simp at silent

/-- No two bindings of a plan share a name. -/
theorem Grown.nodup {abi : Abi} {p : Plan} (grown : Grown abi p) :
    (p.entries.map (·.binding.text)).Nodup := by
  induction grown with
  | start ok =>
    unfold Plan.start at ok
    obtain ⟨_, -, ok⟩ := ok_of_bind ok
    cases ok
    exact List.nodup_nil
  | bind _ ok ih =>
    obtain ⟨rfl, silent⟩ := eq_of_bind ok
    rw [List.map_append, List.nodup_append]
    refine ⟨ih, by simp, ?_⟩
    rintro name mem other mem' rfl
    obtain ⟨e, there, rfl⟩ := List.mem_map.1 mem
    rw [List.map_singleton, List.mem_singleton] at mem'
    exact binding_ne_of_silent (silent e there) mem'

/-- Names are bound once, so looking one up finds the entry that it is of. -/
theorem typeOf?_of_mem {p : Plan} (nodup : (p.entries.map (·.binding.text)).Nodup) {e : Entry}
    (mem : e ∈ p.entries) : p.typeOf? e.binding.text = some e.varType := by
  unfold typeOf?
  generalize p.entries = entries at nodup mem
  induction entries with
  | nil => cases mem
  | cons first rest ih =>
    rw [List.map_cons, List.nodup_cons] at nodup
    rcases List.mem_cons.1 mem with rfl | mem
    · simp
    · have ne : first.binding.text ≠ e.binding.text := fun same =>
        nodup.1 (same ▸ List.mem_map_of_mem mem)
      rw [List.find?_cons_of_neg (by simpa using ne)]
      exact ih nodup.2 mem

theorem exists_of_typeOf? {p : Plan} {name : String} {type : VarType}
    (found : p.typeOf? name = some type) :
    ∃ e ∈ p.entries, e.binding.text = name ∧ e.varType = type := by
  obtain ⟨e, there, rfl⟩ := Option.map_eq_some_iff.1 found
  exact ⟨e, List.mem_of_find?_eq_some there, by simpa using List.find?_some there, rfl⟩

/-- A handle `a` and an integer `n`, both of them published. -/
def handleAndCounter : Plan where
  stem := "r"
  slotPrefix := "host_"
  entries :=
    [⟨⟨0, .handle 0, none, .empty, none⟩, ⟨"a", rfl⟩, .sync⟩,
      ⟨⟨1, .scalar .int64 1, none, .empty, none⟩, ⟨"n", rfl⟩, .sync⟩]

theorem handleAndCounter_grown : Grown .standard handleAndCounter := by
  have empty : Plan.start "r" .standard = .ok ⟨"r", "host_", []⟩ := rfl
  have first : Plan.bind ⟨"r", "host_", []⟩ ⟨0, .handle 0, none, .empty, none⟩ ⟨"a", rfl⟩ .sync =
      .ok { handleAndCounter with entries := handleAndCounter.entries.take 1 } := rfl
  have second : Plan.bind { handleAndCounter with entries := handleAndCounter.entries.take 1 }
      ⟨1, .scalar .int64 1, none, .empty, none⟩ ⟨"n", rfl⟩ .sync = .ok handleAndCounter := rfl
  exact .bind (.bind (.start empty) first) second

theorem handleAndCounter_builtIn : ∀ e ∈ handleAndCounter.entries, e.node.IsBuiltIn := by
  simp only [handleAndCounter, List.forall_mem_cons]
  exact ⟨.inl ⟨_, rfl⟩, .inr ⟨_, _, rfl⟩, by simp⟩

/-! ## The code of a rung -/

/-- The rung of a handle or a scalar, on top of the label `below`. -/
inductive Rung.Standard (types : String → Option VarType) (below : Label) : Rung → Prop where
  | handle {b : Binding} {terminal : Terminal} {fail : Label} (type : types b.text = some .handle) :
      Standard types below ⟨⟨b, terminal, [.declare b.text .handle],
        [.incRef b.host, .assign b.native b.host],
        match terminal with
        | .sync => [.decRef b.host, .assign b.host b.native, .clear b.native]
        | .cleanup => [.decRef b.native],
        [.decRef b.native]⟩, fail⟩
  | scalar {b : Binding} {terminal : Terminal} {fail : Label} {type : ScalarType}
      (declared : types b.text = some (.scalar type)) :
      Standard types below ⟨⟨b, terminal, [.declare b.text (.scalar type)],
        [.unbox b.text b.host type fail],
        match terminal with
        | .sync => [.decRef b.host, .box b.host b.text type, .gotoIfNull b.host below]
        | .cleanup => [],
        []⟩, fail⟩

/-- What a standard rung runs on the normal path. -/
inductive Rung.Finish (types : String → Option VarType) (below : Label) (r : Rung) : Prop where
  | publishHandle (type : types r.name = some .handle) (terminal : r.fragment.terminal = .sync)
      (code : r.fragment.finish =
        [.decRef (.host r.name), .assign (.host r.name) (.native r.name), .clear (.native r.name)])
  | dropHandle (type : types r.name = some .handle) (terminal : r.fragment.terminal = .cleanup)
      (code : r.fragment.finish = [.decRef (.native r.name)])
  | publishScalar {type : ScalarType} (declared : types r.name = some (.scalar type))
      (terminal : r.fragment.terminal = .sync)
      (code : r.fragment.finish =
        [.decRef (.host r.name), .box (.host r.name) r.name type, .gotoIfNull (.host r.name) below])
  | dropScalar {type : ScalarType} (declared : types r.name = some (.scalar type))
      (terminal : r.fragment.terminal = .cleanup) (code : r.fragment.finish = [])

/-- The code of a standard rung decides what it runs on the normal path, by type and terminal. -/
theorem Rung.Standard.finish {types : String → Option VarType} {below : Label} {r : Rung}
    (standard : r.Standard types below) : r.Finish types below := by
  cases standard with
  | @handle b terminal fail type =>
    cases terminal with
    | sync => exact .publishHandle type rfl rfl
    | cleanup => exact .dropHandle type rfl rfl
  | @scalar b terminal fail scalarType declared =>
    cases terminal with
    | sync => exact .publishScalar declared rfl rfl
    | cleanup => exact .dropScalar declared rfl rfl

/-- The hooks of handles and scalars give the standard code, so the rung of such an entry is a
standard one. -/
theorem Raised.standard {stem : String} {failed : Label} {below : List Rung} {e : Entry} {r : Rung}
    (raised : Raised stem failed below e r) (builtIn : e.node.IsBuiltIn)
    {types : String → Option VarType} (type : types e.binding.text = some e.varType) :
    r.Standard types (top failed below) := by
  obtain ⟨-, binding, terminal, declare, extract, cleanup, dropped, synced⟩ := raised
  obtain ⟨⟨b, t, _, _, _, _⟩, fail⟩ := r
  dsimp only at binding terminal declare extract cleanup dropped synced
  subst binding
  unfold Entry.varType at type
  rcases builtIn with ⟨ident, kind⟩ | ⟨scalarType, ident, kind⟩
  all_goals
    rw [kind] at declare extract cleanup synced type
    cases declare
    cases extract
    cases cleanup
  · cases t with
    | sync => cases synced terminal.symm; exact .handle type
    | cleanup => cases dropped terminal.symm; exact .handle type
  · cases t with
    | sync => cases synced terminal.symm; exact .scalar type
    | cleanup => cases dropped terminal.symm; exact .scalar type

/-- A ladder of standard rungs, each name bound once. -/
structure Standing (types : String → Option VarType) (failed : Label) (rungs : List Rung) :
    Prop where
  standard : ∀ below r above, rungs = below ++ r :: above → r.Standard types (top failed below)
  names : (rungs.map Rung.name).Nodup
  covers : ∀ name type, types name = some type → ∃ r ∈ rungs, r.name = name

/-- A built region of handles and scalars whose names are bound once stands on standard rungs. -/
theorem Assembly.standing {p : Plan} {body : Block} {region : Region} {rungs : List Rung}
    (assembly : p.Assembly body region rungs)
    (nodup : (p.entries.map (·.binding.text)).Nodup)
    (builtIn : ∀ e ∈ p.entries, e.node.IsBuiltIn) :
    Standing p.typeOf? region.failed rungs where
  standard := by
    rintro below r above rfl
    obtain ⟨before, e, after, split, -, raised⟩ := rungs_at_rung assembly.raised
    have mem : e ∈ p.entries := by rw [split]; simp
    exact raised.standard (builtIn e mem) (typeOf?_of_mem nodup mem)
  names := by
    rw [names_rungsFrom assembly.raised]
    exact nodup
  covers := by
    intro name type found
    obtain ⟨e, mem, rfl, -⟩ := exists_of_typeOf? found
    obtain ⟨r, there, same, -⟩ := rung_of_entry assembly.raised mem
    exact ⟨r, there, same⟩

/-! ## Owners -/

/-- The variables that own a reference each once the rungs have been extracted. -/
def owners (types : String → Option VarType) (rungs : List Rung) : List String :=
  (rungs.map Rung.name).filter fun name => types name = some .handle

/-- The rung of a handle adds its variable as an owner. -/
theorem owners_snoc_handle {types : String → Option VarType} {rungs : List Rung} {r : Rung}
    (type : types r.name = some .handle) : owners types (rungs ++ [r]) = owners types rungs ++ [r.name] := by
  simp [owners, List.filter_append, type]

/-- A scalar is no reference, so its rung adds no owner. -/
theorem owners_snoc_scalar {types : String → Option VarType} {rungs : List Rung} {r : Rung}
    {scalarType : ScalarType} (type : types r.name = some (.scalar scalarType)) :
    owners types (rungs ++ [r]) = owners types rungs := by
  simp [owners, List.filter_append, type]

/-- Owners are the names of rungs that are bound to handles. -/
theorem mem_owners {types : String → Option VarType} {rungs : List Rung} {name : String} :
    name ∈ owners types rungs ↔ (∃ r ∈ rungs, r.name = name) ∧ types name = some .handle := by
  simp [owners]

theorem Standing.nodup_owners {types : String → Option VarType} {failed : Label} {rungs : List Rung}
    (standing : Standing types failed rungs) : (owners types rungs).Nodup :=
  standing.names.filter _

end Plan

end HostBridge
