/-!
# Line endings

A text may end its lines with a carriage return, with a line feed or with both.
`unify` writes each of the three as one line feed, in a single pass, and
`normalize` also makes the text end in a line feed.

The same result has a description in passes: `joinPairs` shortens each carriage
return that a line feed follows, `feedLoneReturns` turns the carriage returns that
are left into line feeds, and `closeLine` adds the line feed at the end.
-/

namespace HostBridge.Text

/-- Each of `\r\n`, lone `\r` and `\n` becomes one `\n`; all else stays. -/
def unify : List Char → List Char
  | [] => []
  | '\r' :: '\n' :: rest => '\n' :: unify rest
  | '\r' :: rest => '\n' :: unify rest
  | c :: rest => c :: unify rest

/-- The text with a line feed at its end: the one it has, or a new one. -/
def closeLine (s : List Char) : List Char :=
  if s.getLast? = some '\n' then s else s ++ ['\n']

/-- The text with unified line endings and a line feed at its end. -/
def normalizeChars (s : List Char) : List Char :=
  closeLine (unify s)

/-- `normalizeChars` on strings. -/
def normalize (s : String) : String :=
  String.ofList (normalizeChars s.toList)

/-- Every pair `\r\n` becomes `\n`. -/
def joinPairs : List Char → List Char
  | [] => []
  | '\r' :: '\n' :: rest => '\n' :: joinPairs rest
  | c :: rest => c :: joinPairs rest

/-- Every carriage return becomes a line feed. -/
def feedLoneReturns (s : List Char) : List Char :=
  s.map fun c => if c = '\r' then '\n' else c

theorem toList_normalize (s : String) : (normalize s).toList = normalizeChars s.toList := by
  simp [normalize]

/-- One pass does what two do: after the first of them, a carriage return that is left had
no line feed behind it. -/
theorem unify_eq_feedLoneReturns_joinPairs (s : List Char) :
    unify s = feedLoneReturns (joinPairs s) := by
  fun_induction unify s with
  | case1 => rfl
  | case2 rest ih => simp [joinPairs, feedLoneReturns, ih]
  | case3 rest h ih =>
    have hj : joinPairs ('\r' :: rest) = '\r' :: joinPairs rest := by
      cases rest with
      | nil => rfl
      | cons d rest => simp_all [joinPairs]
    simp [hj, feedLoneReturns, ih]
  | case4 c rest h h' ih =>
    have hc : c ≠ '\r' := by simpa using h'
    have hj : joinPairs (c :: rest) = c :: joinPairs rest := by simp [joinPairs]
    simp [hj, feedLoneReturns, hc, ih]

theorem not_mem_unify (s : List Char) : '\r' ∉ unify s := by
  fun_induction unify s <;> simp_all [eq_comm]

theorem getLast?_closeLine (s : List Char) : (closeLine s).getLast? = some '\n' := by
  unfold closeLine
  split <;> simp_all

end HostBridge.Text
