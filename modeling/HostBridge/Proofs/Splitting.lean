/-!
# Splitting lists

Where a list is split at an element that a test or a property singles out.
-/

namespace HostBridge

variable {α : Type}

/-! ## Properties -/

/-- Either all elements have a property, or there is a first one that has not. -/
theorem forall_or_first (P : α → Prop) (l : List α) :
    (∀ x ∈ l, P x) ∨ ∃ before x after, l = before ++ x :: after ∧ (∀ y ∈ before, P y) ∧ ¬ P x := by
  induction l with
  | nil => exact .inl fun x mem => absurd mem List.not_mem_nil
  | cons x rest ih =>
    by_cases here : P x
    · rcases ih with all | ⟨before, y, after, rfl, good, bad⟩
      · exact .inl (List.forall_mem_cons.2 ⟨here, all⟩)
      · exact .inr ⟨x :: before, y, after, rfl, List.forall_mem_cons.2 ⟨here, good⟩, bad⟩
    · exact .inr ⟨[], x, rest, rfl, fun y mem => absurd mem List.not_mem_nil, here⟩

/-- Either all elements have a property, or there is a last one that has not. -/
theorem forall_or_last (P : α → Prop) (l : List α) :
    (∀ x ∈ l, P x) ∨ ∃ before x after, l = before ++ x :: after ∧ ¬ P x ∧ ∀ y ∈ after, P y := by
  rcases forall_or_first P l.reverse with all | ⟨before, x, after, split, good, bad⟩
  · exact .inl fun x mem => all x (List.mem_reverse.2 mem)
  · refine .inr ⟨after.reverse, x, before.reverse, ?_, bad,
      fun y mem => good y (List.mem_reverse.1 mem)⟩
    simpa using congrArg List.reverse split

/-! ## Tests -/

variable {test : α → Bool} {s rest : List α}

theorem takeWhile_stops (all : ∀ c ∈ s, test c = true) (stops : ∀ c ∈ rest.head?, test c = false) :
    (s ++ rest).takeWhile test = s := by
  rw [List.takeWhile_append_of_pos all]
  cases rest with
  | nil => exact List.append_nil s
  | cons c rest =>
    rw [List.takeWhile_cons_of_neg (by rw [stops c rfl]; decide), List.append_nil]

theorem dropWhile_stops (all : ∀ c ∈ s, test c = true) (stops : ∀ c ∈ rest.head?, test c = false) :
    (s ++ rest).dropWhile test = rest := by
  rw [List.dropWhile_append_of_pos all]
  cases rest with
  | nil => rfl
  | cons c rest => exact List.dropWhile_cons_of_neg (by rw [stops c rfl]; decide)

/-- What comes first behind the elements that the test accepts does not depend on what comes last. -/
theorem head?_dropWhile_append (stops : ∃ c ∈ s, test c = false) (t : List α) :
    ((s ++ t).dropWhile test).head? = (s.dropWhile test).head? := by
  induction s with
  | nil =>
    obtain ⟨c, mem, -⟩ := stops
    cases mem
  | cons c s ih =>
    rw [List.cons_append]
    cases pass : test c with
    | false =>
      have neg : ¬ test c = true := by rw [pass]; decide
      rw [List.dropWhile_cons_of_neg neg, List.dropWhile_cons_of_neg neg]
      rfl
    | true =>
      rw [List.dropWhile_cons_of_pos pass, List.dropWhile_cons_of_pos pass]
      obtain ⟨d, mem, stop⟩ := stops
      refine ih ⟨d, (List.mem_cons.1 mem).resolve_left ?_, stop⟩
      rintro rfl
      rw [pass] at stop
      cases stop

/-- A list is its last elements that the test accepts and what stands before them. -/
theorem dropWhile_reverse_append (test : α → Bool) (s : List α) :
    (s.reverse.dropWhile test).reverse ++ (s.reverse.takeWhile test).reverse = s := by
  rw [← List.reverse_append, List.takeWhile_append_dropWhile, List.reverse_reverse]

theorem getLast?_dropWhile_reverse (test : α → Bool) (s : List α) :
    ∀ c ∈ (s.reverse.dropWhile test).reverse.getLast?, test c = false := by
  intro c last
  rw [List.getLast?_reverse] at last
  have := List.head?_dropWhile_not test s.reverse
  rw [last] at this
  simpa using this

end HostBridge
