import HostBridge.Proofs.Region.BuiltIn
import HostBridge.Proofs.Run.Steps

/-!
# Unwinding

The ladder at the end of a region of built-in values, entered anywhere: each rung gives
back what its variable owns, so once the end is reached nothing is owned but the base of the
ledger. Apart from counts the host stays as it was.
-/

namespace HostBridge.Plan

open Machine

variable {code : Block} {types : String → Option VarType} {failed done : Label}

/-- What is passed on the way down the ladder. -/
def descent (rungs : List Rung) : List String :=
  rungs.reverse.flatMap fun r => [r.fail.text ++ ":", "cleanup " ++ r.name]

@[simp] theorem descent_nil : descent [] = [] := rfl

@[simp] theorem descent_snoc (rungs : List Rung) (r : Rung) :
    descent (rungs ++ [r]) = (r.fail.text ++ ":") :: ("cleanup " ++ r.name) :: descent rungs := by
  simp [descent]

/-- One rung: its variable, if it is an owner, is one no longer. -/
theorem descend {rungs : List Rung} {r : Rung} {below : Label} {base : Address → Int} {m : Machine}
    {rest : Block} (standard : r.Standard types below) (typed : Typed types m.vars)
    (ledger : Ledger base (owners types (rungs ++ [r])) m.host m.vars)
    (backed : ∀ name ∈ owners types (rungs ++ [r]), ∀ a, handleIn m.vars name = some a → 0 ≤ base a)
    (at_ : m.ahead code =
      .label r.fail :: .comment ("cleanup " ++ r.name) :: (r.fragment.cleanup ++ rest)) :
    ∃ m', Forward code m m' ∧ m'.ahead code = rest ∧ m'.vars = m.vars ∧
      m.host.Recounted m'.host ∧ Ledger base (owners types rungs) m'.host m'.vars ∧
      m'.trace = (m.trace.push (r.fail.text ++ ":")).push ("cleanup " ++ r.name) := by
  obtain ⟨pass, ahead⟩ := Forward.one at_ (step_label _) rfl
  obtain ⟨note, ahead⟩ := Forward.one ahead (step_comment _) rfl
  cases standard with
  | @handle b terminal fail type =>
    rw [owners_snoc_handle type] at ledger backed
    have mem : b.text ∈ owners types rungs ++ [b.text] := by simp
    have live := ledger.usable mem (backed _ mem)
    obtain ⟨handle, there⟩ := typed.handle type
    rw [handleIn_of_get? there] at live
    obtain ⟨giveBack, ahead⟩ := Forward.one ahead (step_decRef (readHandle_native there) live) rfl
    refine ⟨_, pass.trans (note.trans giveBack), ahead, rfl, Host.recounted_adjust .., ?_, rfl⟩
    have given := ledger.giveBack (v := b.text) (by rwa [handleIn_of_get? there])
    rwa [handleIn_of_get? there] at given
  | scalar declared =>
    rw [owners_snoc_scalar declared] at ledger
    exact ⟨_, pass.trans note, ahead, rfl, .refl _, ledger, rfl⟩

/-- From the top of some rungs to the end of the code. -/
theorem run_ladder {rungs : List Rung} (standard : ∀ r ∈ rungs, ∃ below, r.Standard types below)
    {base : Address → Int} {m : Machine} (typed : Typed types m.vars)
    (ledger : Ledger base (owners types rungs) m.host m.vars)
    (backed : ∀ name ∈ owners types rungs, ∀ a, handleIn m.vars name = some a → 0 ≤ base a)
    (at_ : m.ahead code = ladder rungs ++ exits failed done) :
    ∃ m', Forward code m m' ∧ m'.ahead code = [] ∧ m.host.Recounted m'.host ∧
      (∀ a, m'.host.count a = base a) ∧
      m'.trace.toList = m.trace.toList ++ descent rungs ++ [failed.text ++ ":", done.text ++ ":"] := by
  induction rungs using List.reverseRecOn generalizing m with
  | nil =>
    obtain ⟨pass, ahead⟩ := Forward.one at_ (step_label failed) rfl
    obtain ⟨pass', ahead⟩ := Forward.one ahead (step_label done) rfl
    refine ⟨_, pass.trans pass', ahead, .refl _, fun a => ?_, by simp⟩
    exact (ledger a).trans (Int.add_zero _)
  | append_singleton rungs r ih =>
    obtain ⟨below, standard_r⟩ := standard r (by simp)
    rw [ladder_snoc, List.cons_append, List.cons_append, List.append_assoc] at at_
    obtain ⟨mid, first, ahead, vars, recounted, ledger', trace⟩ :=
      descend standard_r typed ledger backed at_
    have fewer {name : String} (mem : name ∈ owners types rungs) :
        name ∈ owners types (rungs ++ [r]) := by
      obtain ⟨⟨s, there, named⟩, type⟩ := mem_owners.1 mem
      exact mem_owners.2 ⟨⟨s, List.mem_append_left _ there, named⟩, type⟩
    obtain ⟨m', forward, ahead', recounted', counts, trace'⟩ :=
      ih (fun s mem => standard s (List.mem_append_left _ mem)) (vars ▸ typed) ledger'
        (fun name mem => by rw [vars]; exact backed name (fewer mem)) ahead
    refine ⟨m', first.trans forward, ahead', recounted.trans recounted', counts, ?_⟩
    rw [trace', trace, descent_snoc]
    simp

end HostBridge.Plan
