import HostBridge.Heap.Machine

/-!
# Where labels are

In code that defines no label twice, a label is where it stands: what follows it in the
code is what runs after a jump to it (`Block.position?_of_suffix`).
-/

namespace HostBridge.Block

/-- The search keeps the labels seen so far, so they are part of the induction. -/
theorem firstRepeated?_eq_none_iff (seen labels : List Label) :
    firstRepeated? seen labels = none ↔ labels.Nodup ∧ ∀ l ∈ labels, l ∉ seen := by
  induction labels generalizing seen with
  | nil => simp [firstRepeated?]
  | cons l rest ih =>
    rw [firstRepeated?]
    split
    · next repeated => simp [repeated]
    · next fresh =>
      rw [ih, List.nodup_cons]
      constructor
      · rintro ⟨nodup, unseen⟩
        refine ⟨⟨fun mem => unseen l mem (List.mem_cons_self ..), nodup⟩, fun k mem => ?_⟩
        rcases List.mem_cons.1 mem with rfl | mem
        · exact fresh
        · exact fun seen' => unseen k mem (List.mem_cons_of_mem _ seen')
      · rintro ⟨⟨out, nodup⟩, unseen⟩
        refine ⟨nodup, fun k mem seen' => ?_⟩
        rcases List.mem_cons.1 seen' with rfl | seen'
        · exact out mem
        · exact unseen k (List.mem_cons_of_mem _ mem) seen'

/-- Nothing clashes when every label is defined once. -/
theorem clash?_eq_none_iff (b : Block) : clash? b = none ↔ b.labels.Nodup := by
  rw [clash?, firstRepeated?_eq_none_iff]
  simp

@[simp] theorem labels_nil : labels [] = [] := rfl

theorem labels_cons (s : Stmt) (b : Block) :
    labels (s :: b) = s.definedLabel?.toList ++ labels b := by
  cases e : s.definedLabel? <;> simp [labels, e]

theorem mem_labels_cons {l : Label} {s : Stmt} {b : Block} :
    l ∈ labels (s :: b) ↔ s.definedLabel? = some l ∨ l ∈ labels b := by
  rw [labels_cons, List.mem_append, Option.mem_toList]

/-- A label has a position where it is defined. -/
theorem position?_eq_none_iff {l : Label} {b : Block} : b.position? l = none ↔ l ∉ b.labels := by
  induction b with
  | nil => simp [position?]
  | cons s rest ih =>
    rw [position?, mem_labels_cons]
    cases found : position? l rest with
    | some i =>
      have mem : l ∈ labels rest := by
        apply Classical.byContradiction
        intro out
        rw [ih.2 out] at found
        cases found
      simp [mem]
    | none => simp [ih.1 found]

/-- A label that the second block does not define is where the first one has it. -/
theorem position?_append_of_not_mem {l : Label} {b c : Block} (out : l ∉ c.labels) :
    (b ++ c).position? l = b.position? l := by
  induction b with
  | nil => exact position?_eq_none_iff.2 out
  | cons s rest ih => rw [List.cons_append, position?, position?, ih]

/-- The last definition counts, so one in the second block does. -/
theorem position?_append_of_mem {l : Label} {b c : Block} {i : Nat} (found : c.position? l = some i) :
    (b ++ c).position? l = some (b.length + i) := by
  induction b with
  | nil => simpa using found
  | cons s rest ih =>
    rw [List.cons_append, position?, ih, List.length_cons]
    simp only [Option.some.injEq]
    omega

theorem position?_lt_length {l : Label} {b : Block} {i : Nat} (found : b.position? l = some i) :
    i < b.length := by
  induction b generalizing i with
  | nil => cases found
  | cons s rest ih =>
    rw [position?] at found
    rw [List.length_cons]
    cases there : position? l rest with
    | some j =>
      rw [there] at found
      cases found
      have := ih there
      omega
    | none =>
      simp only [there] at found
      split at found
      · cases found
        omega
      · cases found

/-- A label that a block defines is found in the block, whatever stands around it. -/
theorem position?_inside {before block after : Block} {l : Label} {i : Nat}
    (nodup : (before ++ (block ++ after)).labels.Nodup) (mem : l ∈ block.labels)
    (position : (before ++ (block ++ after)).position? l = some i) :
    before.length ≤ i ∧ i < before.length + block.length := by
  have out : l ∉ after.labels := by
    rw [labels_append, labels_append] at nodup
    exact fun mem' => (List.nodup_append.1 (List.nodup_append.1 nodup).2.1).2.2 l mem l mem' rfl
  obtain ⟨j, found⟩ : ∃ j, block.position? l = some j := by
    apply Option.ne_none_iff_exists'.1
    rw [Ne, position?_eq_none_iff, Classical.not_not]
    exact mem
  have bound := position?_lt_length found
  rw [← position?_append_of_not_mem out] at found
  cases (position?_append_of_mem found).symm.trans position
  omega

/-- A jump to a label goes on with the code that the label heads. -/
theorem position?_of_suffix {code rest : Block} {l : Label} (nodup : code.labels.Nodup)
    (suffix : .label l :: rest <:+ code) :
    ∃ i, code.position? l = some i ∧ code.drop i = .label l :: rest := by
  obtain ⟨before, rfl⟩ := suffix
  have out : l ∉ rest.labels := by
    rw [labels_append, labels_cons] at nodup
    exact (List.nodup_cons.1 (List.nodup_append.1 nodup).2.1).1
  have found : position? l (.label l :: rest) = some 0 := by
    rw [position?, position?_eq_none_iff.2 out]
    simp [Stmt.definedLabel?]
  exact ⟨before.length + 0, position?_append_of_mem found, by simp⟩

end HostBridge.Block
