import HostBridge.Proofs.Run.Embedding
import Mathlib.Data.List.Nodup

/-!
# Code that only moves onward

In code whose jumps all go to labels further on (`Block.Onward`), a run visits positions in
increasing order. So it executes no statement twice, takes no more steps than there are
statements, and neither misses a label nor is stopped by a limit on steps that admits that many
(`Block.Onward.runs`).

Code is put together from parts, and a part may jump out of itself: `Block.JumpsAhead` says where
to, and what stands behind the part has to define it.
-/

namespace HostBridge

/-- The run loses its way: it does not find a label, or does not get to its end in time. -/
def Fault.IsStray : Fault → Prop
  | unknownLabel _ => True
  | stepLimit => True
  | _ => False

/-! ## Jumps -/

namespace Block

/-- Every jump goes to a label that the code defines once, further on. -/
def Onward (code : Block) : Prop :=
  ∀ (i : Nat) (s : Stmt) (l : Label), code[i]? = some s → s.target? = some l →
    code.labels.count l = 1 ∧ ∃ j : Nat, i < j ∧ code[j]? = some (.label l)

/-- Every jump goes to a label that is defined further on, or to one of those outside. -/
def JumpsAhead (b : Block) (outside : List Label) : Prop :=
  ∀ (i : Nat) (s : Stmt) (l : Label), b[i]? = some s → s.target? = some l →
    l ∈ outside ∨ ∃ j : Nat, i < j ∧ b[j]? = some (.label l)

theorem mem_labels_iff {b : Block} {l : Label} :
    l ∈ b.labels ↔ ∃ j : Nat, b[j]? = some (.label l) := by
  rw [labels, List.mem_filterMap]
  constructor
  · rintro ⟨s, mem, defines⟩
    obtain ⟨j, there⟩ := List.mem_iff_getElem?.1 mem
    cases s with
    | label k =>
      cases defines
      exact ⟨j, there⟩
    | _ => cases defines
  · rintro ⟨j, there⟩
    exact ⟨_, List.mem_of_getElem? there, rfl⟩

theorem jumpsAhead_nil (outside : List Label) : JumpsAhead [] outside := by
  intro i s l fetch
  cases fetch

/-- A statement jumps to labels behind it or outside, and so does the rest. -/
theorem jumpsAhead_cons {s : Stmt} {b : Block} {outside : List Label} :
    JumpsAhead (s :: b) outside ↔
      (∀ l, s.target? = some l → l ∈ b.labels ∨ l ∈ outside) ∧ b.JumpsAhead outside := by
  constructor
  · intro ahead
    constructor
    · intro l target
      rcases ahead 0 s l rfl target with out | ⟨j, later, there⟩
      · exact .inr out
      · obtain ⟨j, rfl⟩ : ∃ k, j = k + 1 := ⟨j - 1, by omega⟩
        exact .inl (mem_labels_iff.2 ⟨j, there⟩)
    · intro i t l fetch target
      rcases ahead (i + 1) t l fetch target with out | ⟨j, later, there⟩
      · exact .inl out
      · obtain ⟨j, rfl⟩ : ∃ k, j = k + 1 := ⟨j - 1, by omega⟩
        exact .inr ⟨j, by omega, there⟩
  · rintro ⟨first, rest⟩ i t l fetch target
    cases i with
    | zero =>
      cases fetch
      rcases first l target with there | out
      · obtain ⟨j, there⟩ := mem_labels_iff.1 there
        exact .inr ⟨j + 1, by omega, there⟩
      · exact .inl out
    | succ i =>
      rcases rest i t l fetch target with out | ⟨j, later, there⟩
      · exact .inl out
      · exact .inr ⟨j + 1, by omega, there⟩

theorem JumpsAhead.mono {b : Block} {outside more : List Label} (ahead : b.JumpsAhead outside)
    (wider : ∀ l ∈ outside, l ∈ more) : b.JumpsAhead more :=
  fun i s l fetch target => (ahead i s l fetch target).imp_left (wider l)

/-- A part can jump to what stands behind it. -/
theorem JumpsAhead.append {b c : Block} {outside inner : List Label} (first : b.JumpsAhead inner)
    (second : c.JumpsAhead outside) (exits : ∀ l ∈ inner, l ∈ c.labels ∨ l ∈ outside) :
    (b ++ c).JumpsAhead outside := by
  induction b with
  | nil => exact second
  | cons s b ih =>
    obtain ⟨here, rest⟩ := jumpsAhead_cons.1 first
    refine jumpsAhead_cons.2 ⟨fun l target => ?_, ih rest⟩
    change l ∈ labels (b ++ c) ∨ l ∈ outside
    rw [labels_append, List.mem_append]
    rcases here l target with there | out
    · exact .inl (.inl there)
    · exact (exits l out).imp_left .inr

theorem jumpsAhead_of_targets {b : Block} {outside : List Label}
    (targets : ∀ l ∈ b.targets, l ∈ outside) : b.JumpsAhead outside :=
  fun _ s l fetch target =>
    .inl (targets l (mem_targets.2 ⟨s, List.mem_of_getElem? fetch, target⟩))

/-- Code that does not jump out of itself moves onward, if it defines no label twice. -/
theorem JumpsAhead.onward {code : Block} (ahead : code.JumpsAhead []) (nodup : code.labels.Nodup) :
    code.Onward := by
  intro i s l fetch target
  rcases ahead i s l fetch target with out | ⟨j, later, there⟩
  · cases out
  · have defined : l ∈ code.labels := mem_labels_iff.2 ⟨j, there⟩
    exact ⟨List.count_eq_one_of_mem nodup defined, j, later, there⟩

theorem count_labels_pos {code : Block} {l : Label} {j : Nat} (there : code[j]? = some (.label l)) :
    0 < code.labels.count l :=
  List.count_pos_iff.2 (mem_labels_iff.2 ⟨j, there⟩)

/-- A label that is defined once is found where it stands. -/
theorem position?_of_count {code : Block} {l : Label} {j : Nat} (once : code.labels.count l = 1)
    (there : code[j]? = some (.label l)) : code.position? l = some j := by
  induction code generalizing j with
  | nil => cases there
  | cons s rest ih =>
    rw [labels_cons, List.count_append] at once
    cases j with
    | zero =>
      cases there
      have out : l ∉ labels rest := by
        rw [← List.count_eq_zero]
        simp only [Stmt.definedLabel?, Option.toList_some, List.count_singleton_self] at once
        omega
      rw [position?, position?_eq_none_iff.2 out]
      exact if_pos rfl
    | succ j =>
      have later : 0 < (labels rest).count l := count_labels_pos there
      rw [position?, ih (by omega) there]

end Block

/-! ## Positions -/

namespace Machine

variable {code : Block} {m m' : Machine}

/-- The positions of the statements that a run executes, in order, for at most `fuel` statements.
The last one may be that of a statement which fails. -/
def positions (code : Block) : Nat → Machine → List Nat
  | 0, _ => []
  | fuel + 1, m =>
    match code[m.next]? with
    | none => []
    | some s =>
      m.next ::
        match m.step code s with
        | .ok m' => positions code fuel m'
        | .error _ => []

theorem positions_halted {fuel : Nat} (halted : Halted code m) : positions code fuel m = [] := by
  cases fuel with
  | zero => rfl
  | succ fuel => rw [positions, halted]

theorem positions_crash {fuel : Nat} {s : Stmt} {crash : Crash} (fetch : code[m.next]? = some s)
    (run : m.step code s = .error crash) : positions code (fuel + 1) m = [m.next] := by
  rw [positions, fetch]
  simp only [run]

/-- The positions of a run are that of its first statement and those of the rest. -/
theorem positions_step {fuel : Nat} {s : Stmt} (fetch : code[m.next]? = some s)
    (run : m.step code s = .ok m') :
    positions code (fuel + 1) m = m.next :: positions code fuel m' := by
  rw [positions, fetch]
  simp only [run]

/-- A statement that succeeds leads to a later position, and not beyond the end. -/
theorem lt_of_step (onward : code.Onward) {s : Stmt} (fetch : code[m.next]? = some s)
    (run : m.step code s = .ok m') : m.next < m'.next ∧ m'.next ≤ code.length := by
  have bound := (List.getElem?_eq_some_iff.1 fetch).1
  rcases (moved_of_step run).next with next | ⟨l, target, position⟩
  · omega
  · obtain ⟨once, j, later, there⟩ := onward m.next s l fetch target
    cases (Block.position?_of_count once there).symm.trans position
    exact ⟨later, Nat.le_of_lt (List.getElem?_eq_some_iff.1 there).1⟩

/-- Positions increase, and there are no more of them than statements ahead. -/
theorem positions_increasing (onward : code.Onward) (fuel : Nat) (m : Machine) :
    (positions code fuel m).Pairwise (· < ·) ∧ (∀ i ∈ positions code fuel m, m.next ≤ i) ∧
      (m.next ≤ code.length → (positions code fuel m).length ≤ code.length - m.next) := by
  induction fuel generalizing m with
  | zero => exact ⟨.nil, fun i mem => absurd mem List.not_mem_nil, fun _ => Nat.zero_le _⟩
  | succ fuel ih =>
    cases fetch : code[m.next]? with
    | none =>
      rw [positions_halted fetch]
      exact ⟨.nil, fun i mem => absurd mem List.not_mem_nil, fun _ => Nat.zero_le _⟩
    | some s =>
      have bound := (List.getElem?_eq_some_iff.1 fetch).1
      cases run : m.step code s with
      | error crash =>
        rw [positions_crash fetch run]
        refine ⟨List.pairwise_singleton _ _, ?_, fun _ => ?_⟩
        · intro i mem
          exact Nat.le_of_eq (List.mem_singleton.1 mem).symm
        · simp only [List.length_singleton]
          omega
      | ok m' =>
        rw [positions_step fetch run]
        obtain ⟨later, inside⟩ := lt_of_step onward fetch run
        obtain ⟨increasing, above, short⟩ := ih m'
        refine ⟨List.pairwise_cons.2 ⟨fun i mem => ?_, increasing⟩, ?_, fun _ => ?_⟩
        · exact Nat.lt_of_lt_of_le later (above i mem)
        · rintro i (_ | ⟨_, mem⟩)
          · exact Nat.le_refl _
          · exact Nat.le_trans (Nat.le_of_lt later) (above i mem)
        · have := short inside
          rw [List.length_cons]
          omega

/-- As many steps as a run takes, it has executed statements. -/
theorem length_positions {n : Nat} (steps : Steps code n m m') :
    (positions code n m).length = n := by
  induction steps with
  | refl => rfl
  | step fetch run _ ih => rw [positions_step fetch run, List.length_cons, ih]

/-! ## Losing the way -/

/-- A failure is none of losing the way. -/
def Finds {α : Type} (x : Except Fault α) : Prop :=
  ∀ fault, x = .error fault → ¬ fault.IsStray

theorem finds_readHandle (m : Machine) (place : Place) : Finds (m.readHandle place) := by
  intro fault failed
  unfold readHandle at failed
  split at failed
  all_goals
    split at failed
    all_goals
      cases failed
      try exact id

theorem finds_writeHandle (m : Machine) (place : Place) (handle : Handle) :
    Finds (m.writeHandle place handle) := by
  intro fault failed
  unfold writeHandle at failed
  split at failed
  all_goals
    split at failed
    all_goals
      cases failed
      try exact id

theorem finds_writeScalar (m : Machine) (var : String) (value : Literal) :
    Finds (m.writeScalar var value) := by
  intro fault failed
  unfold writeScalar at failed
  split at failed
  · split at failed
    · cases failed
    · cases failed
      exact id
  · cases failed
    exact id
  · cases failed
    exact id

theorem finds_readScalar (m : Machine) (var : String) (type : ScalarType) :
    Finds (m.readScalar var type) := by
  intro fault failed
  unfold readScalar at failed
  split at failed
  · split at failed
    · cases failed
    · cases failed
      exact id
  · cases failed
    exact id
  · cases failed
    exact id

theorem finds_acquire (m : Machine) (handle : Handle) : Finds (m.acquire handle) := by
  intro fault failed
  unfold acquire at failed
  split at failed
  · cases failed
  · split at failed
    · cases failed
    · cases failed
      exact id

theorem finds_giveBack (m : Machine) (handle : Handle) : Finds (m.giveBack handle) := by
  intro fault failed
  unfold giveBack at failed
  split at failed
  · cases failed
  · split at failed
    · cases failed
    · cases failed
      exact id

/-- Looking at an object is refused only where it was freed. -/
theorem finds_unboxed? (m : Machine) (handle : Handle) (type : ScalarType) :
    Finds (m.unboxed? handle type) := by
  intro fault failed
  unfold unboxed? at failed
  split at failed
  · cases failed
  · split at failed
    · cases failed
    · cases failed
      exact id

/-- A jump to a label that is defined finds it. -/
theorem finds_jump {l : Label} (m : Machine) (defined : code.position? l ≠ none) :
    Finds (m.jump code l) := by
  intro fault failed
  unfold jump at failed
  split at failed
  · cases failed
  · next missing => exact absurd missing defined

/-- A crash is none of losing the way. -/
def Keeps (x : Except Crash Machine) : Prop :=
  ∀ crash, x = .error crash → ¬ crash.fault.IsStray

theorem keeps_ok (m : Machine) : Keeps (.ok m) := by
  intro crash failed
  cases failed

theorem keeps_attempt {x : Except Fault Machine} (finds : Finds x) : Keeps (m.attempt x) := by
  intro crash failed
  cases x with
  | ok a => cases failed
  | error fault =>
    cases failed
    exact finds fault rfl

/-- Going on after something that finds its way keeps the way. -/
theorem keeps_bind {α : Type} {x : Except Fault α} {f : α → Except Crash Machine} (finds : Finds x)
    (onward : ∀ a, Keeps (f a)) : Keeps (m.attempt x >>= f) := by
  cases x with
  | ok a => exact onward a
  | error fault =>
    intro crash failed
    cases failed
    exact finds fault rfl

/-- A statement whose target is defined does not lose the way. -/
theorem keeps_step (m : Machine) {s : Stmt}
    (defined : ∀ l, s.target? = some l → code.position? l ≠ none) : Keeps (m.step code s) := by
  cases s with
  | comment text => exact keeps_ok _
  | label l => exact keeps_ok _
  | declare var type => exact keeps_ok _
  | incRef place =>
    refine keeps_bind (finds_readHandle m place) fun handle => ?_
    exact keeps_bind (finds_acquire m handle) fun mid => keeps_ok _
  | decRef place =>
    refine keeps_bind (finds_readHandle m place) fun handle => ?_
    exact keeps_bind (finds_giveBack m handle) fun mid => keeps_ok _
  | assign dst src =>
    refine keeps_bind (finds_readHandle m src) fun handle => ?_
    exact keeps_bind (finds_writeHandle m dst handle) fun mid => keeps_ok _
  | clear place => exact keeps_bind (finds_writeHandle m place none) fun mid => keeps_ok _
  | store var value => exact keeps_bind (finds_writeScalar m var value) fun mid => keeps_ok _
  | unbox dst src type fail =>
    refine keeps_bind (finds_readHandle m src) fun handle => ?_
    refine keeps_bind (finds_unboxed? m handle type) fun value? => ?_
    cases value? with
    | none => exact keeps_attempt (finds_jump _ (defined fail rfl))
    | some value => exact keeps_bind (finds_writeScalar m dst value) fun mid => keeps_ok _
  | box dst src type =>
    refine keeps_bind (finds_readScalar m src type) fun value => ?_
    dsimp only
    split
    · exact keeps_bind (finds_writeHandle _ dst none) fun mid => keeps_ok _
    · exact keeps_bind (finds_writeHandle _ dst _) fun mid => keeps_ok _
  | gotoIfNull place target =>
    refine keeps_bind (finds_readHandle m place) fun handle => ?_
    cases handle with
    | none => exact keeps_attempt (finds_jump m (defined target rfl))
    | some a => exact keeps_ok _
  | goto target => exact keeps_attempt (finds_jump m (defined target rfl))

/-- A run loses its way only where fuel runs out: it has executed as many statements as it may, and
one more is ahead. -/
theorem length_positions_of_stray (onward : code.Onward) {fuel : Nat} {crash : Crash}
    (run : m.runFor code fuel = .error crash) (stray : crash.fault.IsStray) :
    crash.fault = .stepLimit ∧ (positions code (fuel + 1) m).length = fuel + 1 := by
  fun_induction runFor code fuel m with
  | case1 fuel m halted => cases run
  | case2 m s fetch =>
    cases run
    refine ⟨rfl, ?_⟩
    cases step : m.step code s with
    | error crash => rw [positions_crash fetch step, List.length_singleton]
    | ok m' => rw [positions_step fetch step, positions, List.length_singleton]
  | case3 m s fetch fuel mid step ih =>
    obtain ⟨limit, length⟩ := ih run
    refine ⟨limit, ?_⟩
    rw [positions_step fetch step, List.length_cons, length]
  | case4 m s fetch fuel crash' step =>
    cases run
    refine absurd stray (keeps_step m (fun l target missing => ?_) crash step)
    obtain ⟨once, j, -, there⟩ := onward m.next s l fetch target
    cases (Block.position?_of_count once there).symm.trans missing

end Machine

/-- A run on the host visits positions in increasing order, and so executes no statement twice and
takes no more steps than there are statements. It finds every label, and ends within the limit on
steps if that admits as many. -/
structure Host.RunsOnward (h : Host) (code : Block) : Prop where
  increasing : ∀ fuel, ((Machine.start h).positions code fuel).Pairwise (· < ·)
  length_le : ∀ fuel, ((Machine.start h).positions code fuel).length ≤ code.length
  steps_le : ∀ n m, Machine.Steps code n (Machine.start h) m → n ≤ code.length
  labels_found : ∀ name, (h.run code).1 ≠ .error (.unknownLabel name)
  in_time : code.length ≤ stepLimit → (h.run code).1 ≠ .error .stepLimit

/-- Code that only jumps onward runs onward on every host: positions increase, so there are no more
of them than statements, and whatever fault a run ends with, it is not one of losing the way before
the limit. -/
theorem Block.Onward.runs {code : Block} (onward : code.Onward) (h : Host) : h.RunsOnward code := by
  have short (fuel : Nat) : ((Machine.start h).positions code fuel).length ≤ code.length :=
    (Machine.positions_increasing onward fuel (Machine.start h)).2.2 (Nat.zero_le _)
  have way {fault : Fault} (failed : (h.run code).1 = .error fault) (stray : fault.IsStray) :
      fault = .stepLimit ∧ stepLimit < code.length := by
    unfold Host.run at failed
    split at failed
    · cases failed
    · next crash run =>
      cases failed
      obtain ⟨limit, length⟩ := Machine.length_positions_of_stray onward run stray
      refine ⟨limit, ?_⟩
      have := short (stepLimit + 1)
      omega
  refine ⟨fun fuel => (Machine.positions_increasing onward fuel _).1, short, ?_, ?_, ?_⟩
  · intro n m steps
    rw [← Machine.length_positions steps]
    exact short n
  · intro name failed
    cases (way failed trivial).1
  · intro admitted failed
    have := (way failed trivial).2
    omega

end HostBridge
