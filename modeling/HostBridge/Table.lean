/-!
# Tables by name

A table is a list of named entries in the order in which the names came in. Putting an
entry under a name that is there replaces it in its place.
-/

namespace HostBridge

/-- Named entries, each name once if made by `put`. -/
abbrev Table (α : Type) := List (String × α)

namespace Table

variable {α : Type}

/-- The first entry of that name. -/
def get? : Table α → String → Option α
  | [], _ => none
  | (key, a) :: rest, name => if key = name then some a else get? rest name

/-- The table with that entry under the name. -/
def put : Table α → String → α → Table α
  | [], name, a => [(name, a)]
  | (key, b) :: rest, name, a =>
    if key = name then (key, a) :: rest else (key, b) :: put rest name a

theorem get?_put (t : Table α) (name other : String) (a : α) :
    (t.put name a).get? other = if name = other then some a else t.get? other := by
  induction t with
  | nil => simp [put, get?]
  | cons entry rest ih =>
    obtain ⟨key, b⟩ := entry
    by_cases h : key = name
    · subst h
      by_cases h' : key = other <;> simp [put, get?, h']
    · by_cases h' : key = other
      · subst h'
        simp [put, get?, h, Ne.symm h]
      · simp [put, get?, h, h', ih]

end Table

end HostBridge
