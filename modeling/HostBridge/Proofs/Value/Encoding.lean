import HostBridge.Proofs.Value.Cloning

/-!
# Data of scalars as literals

The datum of a scalar node can be compiled in as a constant. Three hooks have to agree for that:
the filter, which puts a number in the place of an integer, the copying of data, and the encoding as
a literal. They do on the data that are settled, which are the objects that hold a literal of the
kind's type (`Kind.settled_scalar_iff`). So whatever was asked of a scalar node before, its datum
can be encoded exactly when it was computed (`Node.scalar_encodable`).
-/

namespace HostBridge

/-- The content of an object that holds the literal. -/
def Literal.content : Literal → Plain
  | .int v => .i64 v
  | .float x => .f64 x
  | .bool b => .bool b

theorem HostValue.plain?_eq_some {value : HostValue} {content : Plain} :
    value.plain? = some content ↔ ∃ id, value = .plain id content := by
  constructor
  · intro held
    cases value with
    | plain id content =>
      cases held
      exact ⟨id, rfl⟩
    | list => cases held
    | boxed => cases held
  · rintro ⟨id, rfl⟩
    rfl

namespace Kind

variable {type : ScalarType} {ident : Nat} {value : HostValue}

/-- The objects with a literal of the type, and which literal that is. -/
theorem scalarLiteral?_eq_some {literal : Literal} :
    scalarLiteral? type value = some literal ↔
      (∃ id, value = .plain id literal.content) ∧ literal.scalarType = type := by
  constructor
  · intro found
    unfold scalarLiteral? at found
    split at found
    · next held =>
      cases found
      exact ⟨HostValue.plain?_eq_some.1 held, rfl⟩
    · next held =>
      cases found
      exact ⟨HostValue.plain?_eq_some.1 held, rfl⟩
    · next held =>
      cases found
      exact ⟨HostValue.plain?_eq_some.1 held, rfl⟩
    · cases found
  · rintro ⟨⟨id, rfl⟩, rfl⟩
    cases literal <;> rfl

/-- The filter takes an object as it is, whatever identity a new one would have, only if it holds a
literal of the type: a number that is converted becomes a new object. -/
theorem settled_scalar_iff :
    (scalar type ident).Settled value ↔ ∃ literal, scalarLiteral? type value = some literal := by
  rw [← Option.isSome_iff_exists]
  constructor
  · intro settled
    have same := settled.filter_eq (value.id + 1)
    rcases scalarFilter_cases type (value.id + 1) value with ⟨literal, -⟩ | ⟨x, -, new⟩ | ⟨_, failed⟩
    · exact literal
    · have stored := Except.ok.inj (new.symm.trans same)
      have id := congrArg HostValue.id stored
      exact absurd id (Nat.succ_ne_self _)
    · cases failed.symm.trans same
  · exact settled_of_literal

/-- The encoding finds that same literal. -/
theorem scalarEncoding_eq_ok {literal : Literal} {datum? : Option HostValue} :
    scalarEncoding type datum? = .ok literal ↔
      (∃ id, datum? = some (.plain id literal.content)) ∧ literal.scalarType = type := by
  cases datum? with
  | none =>
    constructor
    · intro encoded
      cases encoded
    · rintro ⟨⟨id, held⟩, -⟩
      cases held
  | some value =>
    have found : scalarEncoding type (some value) = .ok literal ↔
        scalarLiteral? type value = some literal := by
      unfold scalarEncoding
      dsimp only
      cases scalarLiteral? type value with
      | none =>
        constructor
        · intro encoded
          cases encoded
        · intro found
          cases found
      | some other => rw [Except.ok.injEq, Option.some.injEq]
    rw [found, scalarLiteral?_eq_some]
    simp only [Option.some.injEq]

end Kind

namespace Node

variable {type : ScalarType} {ident : Nat} {n : Node} {w : World}

theorem Reached.rooted_scalar (reached : Reached n w) (kind : n.kind = .scalar type ident) :
    n.Rooted w := by
  apply reached.rooted
  rw [kind]
  exact Kind.scalar_steady type ident

theorem Reached.settled_scalar (reached : Reached n w) (kind : n.kind = .scalar type ident)
    {value : HostValue} (held : n.datum = some value) : (Kind.scalar type ident).Settled value := by
  rw [← kind]
  exact (reached.rooted_scalar kind).settled held

/-- All that can be the datum of a scalar node. -/
theorem Reached.scalar_datum (reached : Reached n w) (kind : n.kind = .scalar type ident) :
    n.datum = none ∨ ∃ (id : ObjectId) (literal : Literal),
      n.datum = some (.plain id literal.content) ∧ literal.scalarType = type := by
  cases held : n.datum with
  | none => exact .inl rfl
  | some value =>
    obtain ⟨literal, found⟩ := Kind.settled_scalar_iff.1 (reached.settled_scalar kind held)
    obtain ⟨⟨id, rfl⟩, same⟩ := Kind.scalarLiteral?_eq_some.1 found
    exact .inr ⟨id, literal, rfl, same⟩

/-- Of a scalar node, however it came about: the datum is an object of exactly its type, if there is
one. It can be encoded as a literal if and only if it was computed, and the literal has that type and
that content; otherwise the answer is that there is none. The filter takes the datum as it is. -/
theorem scalar_encodable (reached : Reached n w) (kind : n.kind = .scalar type ident) :
    (n.datum = none ∨ ∃ (id : ObjectId) (literal : Literal),
        n.datum = some (.plain id literal.content) ∧ literal.scalarType = type) ∧
      ((∃ literal, n.kind.literal n.datum = .ok literal) ↔ n.state = .computed) ∧
      (∀ literal, n.kind.literal n.datum = .ok literal → literal.scalarType = type ∧
        ∃ id, n.datum = some (.plain id literal.content)) ∧
      (n.state ≠ .computed → n.kind.literal n.datum =
        .error (.validation Kind.scalarTypeName "no data to encode as a literal")) ∧
      ∀ value ∈ n.datum, ∀ fresh, n.kind.filter fresh value = .ok value := by
  have agrees := (reached.rooted_scalar kind).agrees
  have datum := reached.scalar_datum kind
  have encoding : n.kind.literal = Kind.scalarEncoding type := by
    rw [kind]
    rfl
  rw [encoding]
  refine ⟨datum, Iff.trans ?_ agrees.symm, ?_, ?_, ?_⟩
  · constructor
    · rintro ⟨literal, encoded⟩
      obtain ⟨⟨id, held⟩, -⟩ := Kind.scalarEncoding_eq_ok.1 encoded
      rw [held]
      rfl
    · intro computed
      rcases datum with without | ⟨id, literal, held, same⟩
      · rw [without] at computed
        cases computed
      · exact ⟨literal, Kind.scalarEncoding_eq_ok.2 ⟨⟨id, held⟩, same⟩⟩
  · intro literal encoded
    exact (Kind.scalarEncoding_eq_ok.1 encoded).symm
  · intro without
    rw [agrees.datum_eq_none without]
    rfl
  · intro value held fresh
    rw [kind]
    exact (reached.settled_scalar kind held).filter_eq fresh

/-- A node of real numbers that put 7.0 in the place of an integer and was cloned after it had
rejected a text. -/
def clonedSeven : Node :=
  ⟨5, .scalar .float64 0, none, .holding (.plain 4 (.f64 ⟨0x401c000000000000⟩)), none⟩

theorem clonedSeven_scalar_encodable :
    Reached clonedSeven ⟨7, [0, 0, 0]⟩ ∧
      clonedSeven.kind.literal clonedSeven.datum = .ok (.float ⟨0x401c000000000000⟩) ∧
      clonedSeven.kind.filter 7 (.plain 4 (.f64 ⟨0x401c000000000000⟩)) =
        .ok (.plain 4 (.f64 ⟨0x401c000000000000⟩)) ∧
      (Kind.scalar .float64 0).literal (some (.plain 1 (.i64 7))) =
        .error (.validation "scalar_value" "7 is not a float64 literal") := by
  have created : Node.create 0 (.scalar .float64 0) none none =
      .ok ⟨0, .scalar .float64 0, none, .empty, none⟩ := rfl
  have blank : Reached ⟨0, .scalar .float64 0, none, .empty, none⟩ ⟨2, []⟩ :=
    .created Nat.two_pos created
  have widened : Reached holdingSeven ⟨3, [0]⟩ :=
    blank.performed (r := .setData (some (.plain 1 (.i64 7)))) Nat.one_lt_two rfl
  have rejected : Reached holdingSeven ⟨4, [0, 0]⟩ :=
    widened.performed (r := .setData (some (.plain 1 (.text "seven"))))
      (Nat.lt_succ_of_lt Nat.one_lt_two) rfl
  have reached : Reached clonedSeven ⟨7, [0, 0, 0]⟩ := rejected.cloned rfl
  obtain ⟨-, computed, content, -, again⟩ := scalar_encodable reached rfl
  obtain ⟨literal, encoded⟩ := computed.2 rfl
  obtain ⟨-, id, held⟩ := content literal encoded
  refine ⟨reached, ?_, again _ rfl 7, rfl⟩
  cases literal <;> cases held
  exact encoded

end Node

end HostBridge
