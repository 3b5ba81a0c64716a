import HostBridge.Value.Kind

/-!
# Build requirements

What a native build needs for the values in it: compiler arguments, headers, libraries
and support code, each item once, in the order in which it is first asked for. Kinds of
one type name are asked once.
-/

namespace HostBridge

/-- The inputs of a native build. -/
structure Requirements where
  compileArgs : List String
  headers : List String
  libraries : List String
  supportCode : List String
  deriving DecidableEq, Repr

/-- Adds at the end those items that are not there yet. -/
def mergeUnique (into : List String) (items : List String) : List String :=
  items.foldl (fun into item => if item ∈ into then into else into ++ [item]) into

theorem nodup_mergeUnique {into : List String} (items : List String) (h : into.Nodup) :
    (mergeUnique into items).Nodup := by
  unfold mergeUnique
  induction items generalizing into with
  | nil => exact h
  | cons item rest ih =>
    rw [List.foldl_cons]
    apply ih
    by_cases hi : item ∈ into
    · rwa [if_pos hi]
    · rw [if_neg hi]
      exact List.nodup_append.2 ⟨h, by simp, fun a ha b hb e => by simp_all⟩

namespace Requirements

def none : Requirements := ⟨[], [], [], []⟩

/-- Adds what one kind asks for. A missing hook asks for nothing. -/
def add (r : Requirements) (k : Kind) : Except ValueError Requirements := do
  let args ← supported k.compileDependencies
  let headers ← supported k.headers
  let libraries ← supported k.libraries
  let code ← supported k.supportCode
  .ok {
    compileArgs := mergeUnique r.compileArgs (args.getD [])
    headers := mergeUnique r.headers (headers.getD [])
    libraries := mergeUnique r.libraries (libraries.getD [])
    supportCode := mergeUnique r.supportCode code.toList }

/-- Adds what the kinds ask for whose type names are not among those seen. -/
def addAll (r : Requirements) (seen : List String) : List Kind → Except ValueError Requirements
  | [] => .ok r
  | k :: rest =>
    if k.typeName ∈ seen then addAll r seen rest
    else do
      let r ← r.add k
      addAll r (k.typeName :: seen) rest

/-- What values of these kinds need. The first hook that fails, rather than being missing,
is the error. -/
def collect (kinds : List Kind) : Except ValueError Requirements :=
  none.addAll [] kinds

end Requirements

end HostBridge
