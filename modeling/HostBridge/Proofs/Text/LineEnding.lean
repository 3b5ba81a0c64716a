import HostBridge.Text.LineEnding

/-!
# Normal texts

Normalizing is done in one pass over a text, with one character looked at ahead. That pass gives what
three simpler ones give, for every mixture of line endings, and a normal text is left as it is
(`Text.normalize_eq_passes`). Behind a line feed the pass starts afresh, so texts that end in one can
be normalized piece by piece.
-/

namespace HostBridge.Text

variable {s a b : List Char}

/-! ## Texts without carriage returns -/

theorem joinPairs_of_not_mem (ret : '\r' ∉ s) : joinPairs s = s := by
  fun_induction joinPairs s with
  | case1 => rfl
  | case2 rest ih => exact absurd List.mem_cons_self ret
  | case3 c rest other ih => rw [ih fun mem => ret (List.mem_cons_of_mem c mem)]

theorem feedLoneReturns_of_not_mem (ret : '\r' ∉ s) : feedLoneReturns s = s := by
  have kept : ∀ c ∈ s, (if c = '\r' then '\n' else c) = id c := by
    intro c mem
    refine if_neg ?_
    rintro rfl
    exact ret mem
  rw [feedLoneReturns, List.map_congr_left kept, List.map_id]

/-- A text without carriage returns that ends its last line is left as it is. -/
theorem normalizeChars_of_not_mem (ret : '\r' ∉ s) (ends : s.getLast? = some '\n') :
    normalizeChars s = s := by
  rw [normalizeChars, unify_eq_feedLoneReturns_joinPairs, joinPairs_of_not_mem ret,
    feedLoneReturns_of_not_mem ret, closeLine, if_pos ends]

/-- No carriage return is left, in a pair or alone. -/
theorem not_mem_normalizeChars (s : List Char) : '\r' ∉ normalizeChars s := by
  have ret := not_mem_unify s
  unfold normalizeChars closeLine
  split
  · exact ret
  · rw [List.mem_append, List.mem_singleton]
    rintro (mem | same)
    · exact ret mem
    · cases same

/-! ## Texts in pieces -/

/-- No pair goes over the border between the texts, so the pairs of the whole are those of its
parts. -/
theorem joinPairs_append (closed : a.getLast? ≠ some '\r') :
    joinPairs (a ++ b) = joinPairs a ++ joinPairs b := by
  fun_induction joinPairs a with
  | case1 => rfl
  | case2 rest ih =>
    have inner : rest.getLast? ≠ some '\r' := by
      intro last
      apply closed
      rw [List.getLast?_cons_cons, List.getLast?_cons, last, Option.getD_some]
    rw [List.cons_append, List.cons_append, joinPairs, ih inner, List.cons_append]
  | case3 c rest other ih =>
    have inner : rest.getLast? ≠ some '\r' := by
      intro last
      apply closed
      rw [List.getLast?_cons, last, Option.getD_some]
    rw [List.cons_append, joinPairs, ih inner, List.cons_append]
    rintro rest' rfl next
    cases rest with
    | nil => exact closed rfl
    | cons d rest =>
      obtain ⟨rfl, -⟩ := List.cons.inj next
      exact other rest rfl rfl

/-- Both passes go over the border between the texts as they go over each text. -/
theorem unify_append (closed : a.getLast? ≠ some '\r') : unify (a ++ b) = unify a ++ unify b := by
  rw [unify_eq_feedLoneReturns_joinPairs, joinPairs_append closed, feedLoneReturns, List.map_append,
    unify_eq_feedLoneReturns_joinPairs, unify_eq_feedLoneReturns_joinPairs]
  rfl

theorem getLast?_joinPairs (s : List Char) : (joinPairs s).getLast? = s.getLast? := by
  fun_induction joinPairs s with
  | case1 => rfl
  | case2 rest ih => rw [List.getLast?_cons_cons, List.getLast?_cons, List.getLast?_cons, ih]
  | case3 c rest other ih => rw [List.getLast?_cons, List.getLast?_cons, ih]

/-- A text that ends a line still does. -/
theorem getLast?_unify (ends : s.getLast? = some '\n') : (unify s).getLast? = some '\n' := by
  rw [unify_eq_feedLoneReturns_joinPairs, feedLoneReturns, List.getLast?_map, getLast?_joinPairs, ends]
  rfl

theorem unify_ne_nil (more : s ≠ []) : unify s ≠ [] := by
  fun_cases unify s <;> simp_all

theorem closeLine_append (more : b ≠ []) : closeLine (a ++ b) = a ++ closeLine b := by
  have last : (a ++ b).getLast? = b.getLast? := by
    rw [List.getLast?_append, List.getLast?_eq_some_getLast more, Option.some_or]
  unfold closeLine
  rw [last]
  split
  · rfl
  · rw [List.append_assoc]

/-- Texts whose first one ends its line are normalized one by one: only the second one may have to
be closed. -/
theorem normalizeChars_append (ends : a.getLast? = some '\n') (more : b ≠ []) :
    normalizeChars (a ++ b) = normalizeChars a ++ normalizeChars b := by
  have closed : a.getLast? ≠ some '\r' := by
    rw [ends]
    decide
  have whole : normalizeChars a = unify a := if_pos (getLast?_unify ends)
  rw [whole, normalizeChars, unify_append closed, closeLine_append (unify_ne_nil more), normalizeChars]

/-! ## Passes -/

/-- A normal text is what three passes make of the text: each pair becomes a line feed, then each
carriage return that is left, and at the end a line feed is added if none is there. It has no carriage
return, ends in a line feed and is left as it is. A text that ends in a line feed can be normalized
apart from what follows it. -/
theorem normalize_eq_passes (s : String) :
    normalize s = String.ofList (closeLine (feedLoneReturns (joinPairs s.toList))) ∧
      '\r' ∉ (normalize s).toList ∧ (normalize s).toList.getLast? = some '\n' ∧
      normalize (normalize s) = normalize s ∧
      (s.toList.getLast? = some '\n' → ∀ more : String, more ≠ "" →
        normalize (s ++ more) = normalize s ++ normalize more) := by
  have ends : (normalize s).toList.getLast? = some '\n' := by
    rw [toList_normalize]
    exact getLast?_closeLine _
  have ret : '\r' ∉ (normalize s).toList := by
    rw [toList_normalize]
    exact not_mem_normalizeChars _
  refine ⟨?_, ret, ends, ?_, ?_⟩
  · rw [← unify_eq_feedLoneReturns_joinPairs]
    rfl
  · rw [← String.toList_inj, toList_normalize, normalizeChars_of_not_mem ret ends]
  · intro closed more ne
    have some_more : more.toList ≠ [] := by
      intro empty
      exact ne (String.toList_inj.1 empty)
    rw [← String.toList_inj, toList_normalize, String.toList_append, String.toList_append,
      toList_normalize, toList_normalize, normalizeChars_append closed some_more]

/-- Carriage returns on both sides of a line feed at a border. -/
theorem mixed_normalize_eq_passes :
    "a\r\r\n".toList.getLast? = some '\n' ∧ "\n\rb\r" ≠ "" ∧
      normalize ("a\r\r\n" ++ "\n\rb\r") = normalize "a\r\r\n" ++ normalize "\n\rb\r" ∧
      normalize "a\r\r\n" = "a\n\n" ∧ normalize "\n\rb\r" = "\n\nb\n" := by
  have pieces := (normalize_eq_passes "a\r\r\n").2.2.2.2
  exact ⟨by decide, by decide, pieces (by decide) "\n\rb\r" (by decide), by decide, by decide⟩

end HostBridge.Text
