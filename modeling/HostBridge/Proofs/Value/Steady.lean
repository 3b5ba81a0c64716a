import HostBridge.Value.Kind.Handle
import HostBridge.Value.Kind.Scalar

/-!
# Data that the filter takes as they are

Handles and scalars are steady (`Kind.handle_steady`, `Kind.scalar_steady`): whatever their filter
has made of a value is settled, so the filter takes it, and any copy of it, as it is from then on.
-/

namespace HostBridge.Kind

/-- The filter takes the object as it is, and every object with the same content. -/
def Settled (k : Kind) (value : HostValue) : Prop :=
  ∀ other fresh, k.filter fresh (value.duplicate other) = .ok (value.duplicate other)

/-- Data of the kind settle by going through the filter once, and can be copied. -/
structure Steady (k : Kind) : Prop where
  settled : ∀ {fresh value stored}, k.filter fresh value = .ok stored → k.Settled stored
  /-- What is stored is the object that was given or a new one. -/
  origin : ∀ {fresh value stored}, k.filter fresh value = .ok stored →
    stored.id = value.id ∨ stored.id = fresh
  /-- There is a filter. -/
  supported : ∀ {fresh value e}, k.filter fresh value = .error e → e.isUnsupported = false
  cloneData : ∀ fresh data?, k.cloneData fresh data? = .ok (data?.map (HostValue.duplicate fresh))

section Settled

variable {k : Kind} {value : HostValue}

/-- A copy of a settled value is settled, since it is the content that counts. -/
theorem Settled.duplicate (settled : k.Settled value) (fresh : ObjectId) :
    k.Settled (value.duplicate fresh) := by
  intro other again
  rw [HostValue.duplicate_duplicate]
  exact settled other again

theorem Settled.filter_eq (settled : k.Settled value) (fresh : ObjectId) :
    k.filter fresh value = .ok value := by
  have same := settled value.id fresh
  rw [HostValue.duplicate_id] at same
  exact same

end Settled

/-- A handle takes every object as it is. -/
theorem handle_steady (ident : Nat) : (handle ident).Steady where
  settled _ := fun _ _ => rfl
  origin := by
    intro fresh value stored accepted
    cases accepted
    exact .inl rfl
  supported := by
    intro fresh value e failed
    cases failed
  cloneData _ _ := rfl

theorem scalarLiteral?_duplicate (type : ScalarType) (value : HostValue) (fresh : ObjectId) :
    scalarLiteral? type (value.duplicate fresh) = scalarLiteral? type value := by
  simp [scalarLiteral?]

/-- Objects of the scalar type are settled. -/
theorem settled_of_literal {type : ScalarType} {ident : Nat} {value : HostValue}
    (literal : (scalarLiteral? type value).isSome = true) : (scalar type ident).Settled value := by
  intro other fresh
  rw [← scalarLiteral?_duplicate type value other] at literal
  exact if_pos literal

/-- What the filter can answer: the object itself, the number equal to an integer, or that the
object is not accepted. -/
theorem scalarFilter_cases (type : ScalarType) (fresh : ObjectId) (value : HostValue) :
    ((scalarLiteral? type value).isSome = true ∧ scalarFilter type fresh value = .ok value) ∨
      (∃ x, type = .float64 ∧ scalarFilter type fresh value = .ok (.plain fresh (.f64 x))) ∨
      ∃ reason, scalarFilter type fresh value = .error (.validation scalarTypeName reason) := by
  unfold scalarFilter
  split
  · next literal => exact .inl ⟨literal, rfl⟩
  · split
    · split
      · next x _ => exact .inr (.inl ⟨x, rfl, rfl⟩)
      · exact .inr (.inr ⟨_, rfl⟩)
    · exact .inr (.inr ⟨_, rfl⟩)

/-- A scalar's filter gives literals, which it takes as they are from then on. -/
theorem scalar_steady (type : ScalarType) (ident : Nat) : (scalar type ident).Steady where
  settled := by
    intro fresh value stored accepted
    rcases scalarFilter_cases type fresh value with ⟨literal, same⟩ | ⟨x, rfl, new⟩ | ⟨_, failed⟩
    · cases same.symm.trans accepted
      exact settled_of_literal literal
    · cases new.symm.trans accepted
      exact settled_of_literal rfl
    · cases failed.symm.trans accepted
  origin := by
    intro fresh value stored accepted
    rcases scalarFilter_cases type fresh value with ⟨_, same⟩ | ⟨x, _, new⟩ | ⟨_, failed⟩
    · cases same.symm.trans accepted
      exact .inl rfl
    · cases new.symm.trans accepted
      exact .inr rfl
    · cases failed.symm.trans accepted
  supported := by
    intro fresh value e failed
    rcases scalarFilter_cases type fresh value with ⟨_, same⟩ | ⟨x, _, new⟩ | ⟨_, refused⟩
    · cases same.symm.trans failed
    · cases new.symm.trans failed
    · cases refused.symm.trans failed
      rfl
  cloneData _ _ := rfl

end HostBridge.Kind
