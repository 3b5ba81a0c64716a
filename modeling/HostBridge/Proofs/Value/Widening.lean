import HostBridge.Proofs.Binary64.Conversion
import HostBridge.Proofs.Value.Encoding

/-!
# Integers given to nodes of real numbers

A node of real numbers puts a number in the place of an integer if it is the same number, and rejects
every other integer (`Node.setData_integer`). Which integers that are does not depend on the
conversions by which it is found out.
-/

namespace HostBridge

open Binary64

/-- What the filter of real numbers answers to an integer. -/
theorem Kind.filter_integer (ident : Nat) (fresh id : ObjectId) (v : Int64) :
    (scalar .float64 ident).filter fresh (.plain id (.i64 v)) =
      if (ofInt64 v).value = v.toInt then .ok (.plain fresh (.f64 (ofInt64 v)))
      else .error (.validation scalarTypeName
        (toString v.toInt ++ " has no exact float64 representation")) := by
  show scalarFilter .float64 fresh (.plain id (.i64 v)) = _
  unfold scalarFilter
  rw [if_neg (by exact Bool.false_ne_true)]
  split_ifs with same
  · have found := ofInt?_of_value same
    simp only [HostValue.plain?, found]
  · have missing := ofInt?_eq_none same
    simp only [HostValue.plain?, missing]

namespace Node

/-- An integer is never the object that a node of real numbers holds. -/
theorem Reached.not_holds_integer {ident : Nat} {n : Node} {w : World} (reached : Reached n w)
    (kind : n.kind = .scalar .float64 ident) {id : ObjectId} {v : Int64}
    (one : ∀ current ∈ n.datum, current.id = id → current = .plain id (.i64 v)) :
    ¬n.Holds (.plain id (.i64 v)) := by
  rintro ⟨current, held, same⟩
  obtain rfl := one current held same
  rcases reached.scalar_datum kind with without | ⟨_, literal, datum, float⟩
  · cases without.symm.trans held
  · cases literal with
    | float x => cases datum.symm.trans held
    | int => cases float
    | bool => cases float

/-- An integer object is given to a node of real numbers, however that came about; an object with
the identity of the datum would be the datum. If the integer has few bits, which is to say that it is
a number, then the node holds a new object with that very number, and otherwise the integer is
rejected and the node stays as it was. The conversion of integers rounds to the nearest number, a
tie to the even one, and that of numbers saturates. -/
theorem setData_integer {ident : Nat} {n : Node} {w : World} (reached : Reached n w)
    (kind : n.kind = .scalar .float64 ident) {id : ObjectId} {v : Int64}
    (one : ∀ current ∈ n.datum, current.id = id → current = .plain id (.i64 v)) :
    (HasFewBits v.toInt ↔ ∃ x : Binary64, x.IsFinite ∧ x.value = v.toInt) ∧
      (HasFewBits v.toInt → ∃ x : Binary64, x.IsFinite ∧ x.value = v.toInt ∧
        (perform (.setData (some (.plain id (.i64 v))))).runOn n w =
          (.ok (), { n with slot := .holding (.plain w.next (.f64 x)) },
            ⟨w.next + 1, ident :: w.filterCalls⟩)) ∧
      (¬HasFewBits v.toInt → (perform (.setData (some (.plain id (.i64 v))))).runOn n w =
        (.error (.validation Kind.scalarTypeName
          (toString v.toInt ++ " has no exact float64 representation")), n,
          ⟨w.next + 1, ident :: w.filterCalls⟩)) ∧
      (∀ i : Int64, (ofInt64 i).IsNearest i.toInt) ∧
      ∀ x : Binary64, x.Saturates x.toInt64 := by
  have other := reached.not_holds_integer kind one
  have filter := Kind.filter_integer ident w.next id v
  rw [← kind] at filter
  have world : (n.kind.consult (.plain id (.i64 v)) w).2 = ⟨w.next + 1, ident :: w.filterCalls⟩ := by
    rw [kind]
    rfl
  refine ⟨⟨exists_value_of_hasFewBits, ?_⟩, ?_, ?_, ofInt64_isNearest, toInt64_saturates⟩
  · rintro ⟨x, -, same⟩
    exact hasFewBits_of_value same
  · intro few
    have same := (isNumber_iff v).1 few
    rw [if_pos same] at filter
    refine ⟨ofInt64 v, (ofInt64_isNearest v).finite, same, ?_⟩
    rw [runOn_perform, answer_filtered other filter, world]
    rfl
  · intro many
    rw [if_neg (mt (isNumber_iff v).2 many)] at filter
    rw [runOn_perform, answer_rejected other filter Bool.false_ne_true, world]
    rfl

theorem not_hasFewBits_of_odd {v : ℤ} (odd : v % 2 = 1) (large : 2 ^ 53 < v) : ¬HasFewBits v := by
  rintro ⟨m, k, bound, same⟩
  rw [abs_le] at bound
  cases k with
  | zero =>
    rw [pow_zero, mul_one] at same
    omega
  | succ k =>
    rw [pow_succ, ← mul_assoc] at same
    omega

/-- A node that holds a number is given the greatest integer, which is odd though it would come back
from the number it is rounded to, and then `2 ^ 53`. -/
theorem maxValue_setData_integer :
    (ofInt64 .maxValue).toInt64 = .maxValue ∧ Reached holdingSeven ⟨5, [0]⟩ ∧
      (perform (.setData (some (.plain 3 (.i64 .maxValue))))).runOn holdingSeven ⟨5, [0]⟩ =
        (.error (.validation "scalar_value"
          "9223372036854775807 has no exact float64 representation"), holdingSeven, ⟨6, [0, 0]⟩) ∧
      ∃ x : Binary64, x.value = 2 ^ 53 ∧
        (perform (.setData (some (.plain 4 (.i64 9007199254740992))))).runOn holdingSeven ⟨5, [0]⟩ =
          (.ok (), { holdingSeven with slot := .holding (.plain 5 (.f64 x)) }, ⟨6, [0, 0]⟩) := by
  have created : Node.create 0 (.scalar .float64 0) none none =
      .ok ⟨0, .scalar .float64 0, none, .empty, none⟩ := rfl
  have blank : Reached ⟨0, .scalar .float64 0, none, .empty, none⟩ ⟨2, []⟩ :=
    .created Nat.two_pos created
  have widened : Reached holdingSeven ⟨3, [0]⟩ :=
    blank.performed (r := .setData (some (.plain 1 (.i64 7)))) Nat.one_lt_two rfl
  have reached : Reached holdingSeven ⟨5, [0]⟩ := widened.later (by decide)
  have odd : ¬HasFewBits Int64.maxValue.toInt := not_hasFewBits_of_odd (by decide) (by decide)
  have power : (9007199254740992 : Int64).toInt = 2 ^ 53 := by decide
  have few : HasFewBits (9007199254740992 : Int64).toInt := ⟨1, 53, by decide, by decide⟩
  have other (id : ObjectId) (v : Int64) (new : 2 ≠ id) :
      ∀ current ∈ holdingSeven.datum, current.id = id → current = .plain id (.i64 v) := by
    intro current held same
    cases held
    exact absurd same new
  obtain ⟨-, -, rejected, -⟩ := setData_integer reached rfl (other 3 .maxValue (by decide))
  obtain ⟨-, accepted, -⟩ := setData_integer reached rfl (other 4 9007199254740992 (by decide))
  obtain ⟨x, -, value, accepted⟩ := accepted few
  refine ⟨by decide, reached, rejected odd, x, ?_, accepted⟩
  rw [value, power]
  norm_num

end Node

end HostBridge
