import HostBridge.Proofs.Yaml.Places
import HostBridge.Yaml.Block

/-!
# What stands beside a key

A value that is written beside its key is read in one of two ways, whatever comes on the next line:
it stands for a value (`Stands`), or the mapping cannot go on behind it (`Stuck`).
-/

namespace HostBridge.Yaml

/-- Text that can be written beside a key. -/
structure Beside (written : List Char) : Prop where
  head : ∃ c t, written = c :: t ∧ isGap c = false ∧ c ≠ '#'
  ret : '\r' ∉ written

/-- Behind a key, and up to the end of the line or the block, the value is written. -/
structure Stands (written : List Char) (v : Value) : Prop extends Beside written where
  read : ∀ (fuel : Nat) {k : Cursor} {line : Nat} {rest : List Char},
    k.Inside line (written ++ '\n' :: rest) → Resumes rest →
      ∃ node next, blockNode 1 false (fuel + 1) k = some (node, next) ∧ node.value? = some v ∧
        next.skipGap.Opens rest

/-- Behind a key no node can be read, or the next thing behind it is on an indented line. -/
structure Stuck (written : List Char) : Prop extends Beside written where
  stuck : ∀ (fuel : Nat) {k : Cursor} {line : Nat} {rest : List Char},
    k.Inside line (written ++ '\n' :: rest) → Resumes rest →
      ∀ node next, blockNode 1 false (fuel + 1) k = some (node, next) →
        next.skipGap.isBoundary = false ∧ 0 < next.skipGap.column

theorem return_not_mem {s : List Char} (level : ∀ c ∈ s, isBreak c = false) : '\r' ∉ s :=
  fun mem => absurd (level _ mem) (by decide)

variable {written : List Char} {v w : Value}

/-- The text behind the first key of a document without a second one. -/
theorem exists_inside (written : List Char) : ∃ k : Cursor, k.Inside 0 (written ++ '\n' :: []) :=
  ⟨⟨written ++ ['\n'], 0, 1, 0, false⟩, rfl, rfl, Nat.one_pos, rfl⟩

theorem Stands.unique (stands : Stands written v) (stands' : Stands written w) : v = w := by
  obtain ⟨k, inside⟩ := exists_inside written
  obtain ⟨node, next, read, value, -⟩ := stands.read 0 inside nofun
  obtain ⟨node', next', read', value', -⟩ := stands'.read 0 inside nofun
  cases read.symm.trans read'
  exact Option.some.inj (value.symm.trans value')

theorem Stands.not_stuck (stands : Stands written v) : ¬ Stuck written := by
  intro stuck
  obtain ⟨k, inside⟩ := exists_inside written
  obtain ⟨node, next, read, -, opens⟩ := stands.read 0 inside nofun
  have boundary := (stuck.stuck 0 inside nofun node next read).1
  rw [Cursor.isBoundary_nil opens.rest] at boundary
  cases boundary

end HostBridge.Yaml
