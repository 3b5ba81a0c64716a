import HostBridge.Proofs.Run.Labels
import HostBridge.Proofs.Run.Steps

/-!
# Where runs can go

What is known of any statement that succeeds, without regard to what it does to the host:
it goes on with the next statement or jumps to its target, and only comments and labels
are noted (`Machine.moved_of_step`). From that, for code that nothing else is known of, a
run that ends leaves a block at its end or by a jump (`Ends.block`, and `Ends.body` for
blocks that loop).
-/

namespace HostBridge

/-- The label a statement may jump to. -/
def Stmt.target? : Stmt → Option Label
  | unbox _ _ _ fail => some fail
  | gotoIfNull _ target => some target
  | goto target => some target
  | _ => none

/-- What a statement leaves in the trace. -/
def Stmt.noted : Stmt → List String
  | comment text => [text]
  | label l => [l.text ++ ":"]
  | _ => []

def Block.targets (b : Block) : List Label :=
  b.filterMap Stmt.target?

/-- The block has no comments and no labels. -/
def Block.Silent (b : Block) : Prop :=
  ∀ s ∈ b, s.noted = []

theorem Block.mem_targets {b : Block} {l : Label} : l ∈ b.targets ↔ ∃ s ∈ b, s.target? = some l := by
  simp [targets]

namespace Machine

variable {code : Block} {m m' : Machine}

theorem ok_of_attempt {α : Type} {x : Except Fault α} {a : α} (ok : m.attempt x = .ok a) :
    x = .ok a := by
  cases x with
  | error fault => cases ok
  | ok b => cases ok; rfl

/-- The trace and the position stay as they are. -/
def SamePlace (m m' : Machine) : Prop :=
  m'.trace = m.trace ∧ m'.next = m.next

theorem samePlace_of_acquire {handle : Handle} (ok : m.acquire handle = .ok m') :
    m.SamePlace m' := by
  unfold acquire at ok
  split at ok
  · cases ok; exact ⟨rfl, rfl⟩
  · split at ok
    · cases ok; exact ⟨rfl, rfl⟩
    · cases ok

theorem samePlace_of_giveBack {handle : Handle} (ok : m.giveBack handle = .ok m') :
    m.SamePlace m' := by
  unfold giveBack at ok
  split at ok
  · cases ok; exact ⟨rfl, rfl⟩
  · split at ok
    · cases ok; exact ⟨rfl, rfl⟩
    · cases ok

theorem samePlace_of_writeHandle {place : Place} {handle : Handle}
    (ok : m.writeHandle place handle = .ok m') : m.SamePlace m' := by
  unfold writeHandle at ok
  split at ok
  all_goals
    split at ok
    all_goals cases ok
    all_goals exact ⟨rfl, rfl⟩

theorem samePlace_of_writeScalar {var : String} {value : Literal}
    (ok : m.writeScalar var value = .ok m') : m.SamePlace m' := by
  unfold writeScalar at ok
  split at ok
  · split at ok
    · cases ok; exact ⟨rfl, rfl⟩
    · cases ok
  all_goals cases ok

/-- What a statement that succeeds can have done to the trace and the position. -/
structure Moved (code : Block) (s : Stmt) (m m' : Machine) : Prop where
  trace : m'.trace.toList = m.trace.toList ++ s.noted
  next : m'.next = m.next + 1 ∨ ∃ l, s.target? = some l ∧ code.position? l = some m'.next

/-- A statement that stays in place and notes nothing goes on with the next one. -/
theorem SamePlace.moved {s : Stmt} {mid : Machine} (same : m.SamePlace mid) (silent : s.noted = []) :
    Moved code s m mid.advance := by
  refine ⟨?_, .inl ?_⟩
  · rw [silent, List.append_nil, advance, same.1]
  · rw [advance, same.2]

/-- A statement that jumps goes on at the label that it names. -/
theorem moved_of_jump {s : Stmt} {mid : Machine} {target : Label} (same : m.SamePlace mid)
    (ok : mid.jump code target = .ok m') (silent : s.noted = []) (jumps : s.target? = some target) :
    Moved code s m m' := by
  unfold jump at ok
  split at ok
  · next i position =>
    cases ok
    refine ⟨?_, .inr ⟨target, jumps, position⟩⟩
    rw [silent, List.append_nil, same.1]
  · cases ok

/-- A statement that succeeds goes on with the next one or jumps to its target. -/
theorem moved_of_step {s : Stmt} (run : m.step code s = .ok m') : Moved code s m m' := by
  cases s with
  | comment text =>
    cases run
    exact ⟨by simp [advance, pass, Stmt.noted], .inl rfl⟩
  | label l =>
    cases run
    exact ⟨by simp [advance, pass, Stmt.noted], .inl rfl⟩
  | declare var type =>
    cases run
    exact ⟨by simp [Stmt.noted], .inl rfl⟩
  | incRef place =>
    obtain ⟨handle, -, run⟩ := ok_of_bind run
    obtain ⟨mid, acquire, run⟩ := ok_of_bind run
    cases run
    exact (samePlace_of_acquire (ok_of_attempt acquire)).moved rfl
  | decRef place =>
    obtain ⟨handle, -, run⟩ := ok_of_bind run
    obtain ⟨mid, giveBack, run⟩ := ok_of_bind run
    cases run
    exact (samePlace_of_giveBack (ok_of_attempt giveBack)).moved rfl
  | assign dst src =>
    obtain ⟨handle, -, run⟩ := ok_of_bind run
    obtain ⟨mid, write, run⟩ := ok_of_bind run
    cases run
    exact (samePlace_of_writeHandle (ok_of_attempt write)).moved rfl
  | clear place =>
    obtain ⟨mid, write, run⟩ := ok_of_bind run
    cases run
    exact (samePlace_of_writeHandle (ok_of_attempt write)).moved rfl
  | store var value =>
    obtain ⟨mid, write, run⟩ := ok_of_bind run
    cases run
    exact (samePlace_of_writeScalar (ok_of_attempt write)).moved rfl
  | unbox dst src type fail =>
    obtain ⟨handle, -, run⟩ := ok_of_bind run
    obtain ⟨value?, -, run⟩ := ok_of_bind run
    cases value? with
    | none =>
      refine moved_of_jump ?_ (ok_of_attempt run) rfl rfl
      exact ⟨rfl, rfl⟩
    | some value =>
      obtain ⟨mid, write, run⟩ := ok_of_bind run
      cases run
      exact (samePlace_of_writeScalar (ok_of_attempt write)).moved rfl
  | box dst src type =>
    obtain ⟨value, -, run⟩ := ok_of_bind run
    split at run
    all_goals
      obtain ⟨mid, write, run⟩ := ok_of_bind run
      cases run
      obtain ⟨trace, next⟩ := samePlace_of_writeHandle (ok_of_attempt write)
      exact SamePlace.moved ⟨trace, next⟩ rfl
  | gotoIfNull place target =>
    obtain ⟨handle, -, run⟩ := ok_of_bind run
    cases handle with
    | none => exact moved_of_jump ⟨rfl, rfl⟩ (ok_of_attempt run) rfl rfl
    | some a =>
      cases run
      exact SamePlace.moved ⟨rfl, rfl⟩ rfl
  | goto target => exact moved_of_jump ⟨rfl, rfl⟩ (ok_of_attempt run) rfl rfl

/-! ## Runs that end -/

/-- The run from `m` ends in `final`. -/
def Ends (code : Block) (m final : Machine) : Prop :=
  Halted code final ∧ ∃ n, Steps code n m final

/-- A run without fault ends in a halted state, with the trace of that. -/
theorem ends_of_run {h h' : Host} {trace : Array String} (run : h.run code = (.ok trace, h')) :
    ∃ final, final.trace = trace ∧ Ends code (start h) final := by
  unfold Host.run at run
  split at run
  · next final ran =>
    cases run
    obtain ⟨n, -, steps, halted⟩ := steps_of_runFor ran
    exact ⟨final, rfl, halted, n, steps⟩
  · cases run

/-- On the way from `m` there is a jump to a label, and `mid` is the state behind it. -/
def Jumps (code : Block) (m : Machine) (l : Label) (mid : Machine) : Prop :=
  ∃ n before s, Steps code n m before ∧ code[before.next]? = some s ∧ s.target? = some l ∧
    before.step code s = .ok mid ∧ code.position? l = some mid.next

/-- Steps before a jump belong to the way to it. -/
theorem Jumps.of_steps {n : Nat} {l : Label} {mid : Machine} (steps : Steps code n m m')
    (jumps : Jumps code m' l mid) : Jumps code m l mid := by
  obtain ⟨k, before, s, steps', rest⟩ := jumps
  exact ⟨n + k, before, s, steps.trans steps', rest⟩

theorem Jumps.steps {l : Label} {mid : Machine} (jumps : Jumps code m l mid) :
    ∃ n, Steps code n m mid := by
  obtain ⟨k, before, s, steps, fetch, -, run, -⟩ := jumps
  exact ⟨k + 1, steps.trans (.single fetch run)⟩

/-- A run that ends has but one way to its end. -/
theorem Ends.of_steps {n : Nat} {final : Machine} (ends : Ends code m final)
    (steps : Steps code n m m') : Ends code m' final := by
  obtain ⟨halted, k, whole⟩ := ends
  obtain ⟨j, -, rest⟩ := whole.rest_of_halted halted steps
  exact ⟨halted, j, rest⟩

/-- A run with a statement ahead takes a step. -/
theorem Ends.step {final : Machine} {s : Stmt} (ends : Ends code m final)
    (fetch : code[m.next]? = some s) :
    ∃ mid, m.step code s = .ok mid ∧ Ends code mid final := by
  obtain ⟨halted, n, steps⟩ := ends
  cases steps with
  | refl =>
    rw [Halted, fetch] at halted
    cases halted
  | step fetch' run rest =>
    cases fetch.symm.trans fetch'
    exact ⟨_, run, halted, _, rest⟩

/-- A statement without a target is passed. -/
theorem Ends.pass {final : Machine} {s : Stmt} {rest : Block} (ends : Ends code m final)
    (at_ : m.ahead code = s :: rest) (straight : s.target? = none) :
    ∃ mid, Steps code 1 m mid ∧ Ends code mid final ∧ mid.ahead code = rest ∧
      mid.trace.toList = m.trace.toList ++ s.noted := by
  have fetch := fetch_of_ahead at_
  obtain ⟨mid, run, ends'⟩ := ends.step fetch
  have moved := moved_of_step run
  have next : mid.next = m.next + 1 := by
    rcases moved.next with next | ⟨l, target, -⟩
    · exact next
    · cases straight.symm.trans target
  exact ⟨mid, .single fetch run, ends', ahead_succ at_ next, moved.trace⟩

/-- A silent block is left at its end, or by a jump to one of its targets. -/
theorem Ends.block {final : Machine} {block rest : Block} (ends : Ends code m final)
    (at_ : m.ahead code = block ++ rest) (silent : block.Silent) :
    ∃ mid n, Steps code n m mid ∧ Ends code mid final ∧ mid.trace.toList = m.trace.toList ∧
      (mid.ahead code = rest ∨ ∃ l ∈ block.targets, Jumps code m l mid) := by
  induction block generalizing m with
  | nil => exact ⟨m, 0, .refl m, ends, rfl, .inl at_⟩
  | cons s block ih =>
    have fetch := fetch_of_ahead at_
    obtain ⟨next, run, ends'⟩ := ends.step fetch
    have moved := moved_of_step run
    have quiet : next.trace.toList = m.trace.toList := by
      rw [moved.trace, silent s (List.mem_cons_self ..), List.append_nil]
    rcases moved.next with onward | ⟨l, target, position⟩
    · obtain ⟨mid, n, steps, ends'', trace, outcome⟩ := ih ends' (ahead_succ at_ onward)
        fun t mem => silent t (List.mem_cons_of_mem _ mem)
      refine ⟨mid, n + 1, .step fetch run steps, ends'', trace.trans quiet, ?_⟩
      rcases outcome with ahead | ⟨l, mem, jumps⟩
      · exact .inl ahead
      · obtain ⟨t, there, target⟩ := Block.mem_targets.1 mem
        exact .inr ⟨l, Block.mem_targets.2 ⟨t, List.mem_cons_of_mem _ there, target⟩,
          jumps.of_steps (.single fetch run)⟩
    · exact ⟨next, 1, .single fetch run, ends', quiet,
        .inr ⟨l, Block.mem_targets.2 ⟨s, List.mem_cons_self .., target⟩, 0, m, s, .refl m, fetch,
          target, run, position⟩⟩

/-- A silent block without targets is passed. -/
theorem Ends.straight {final : Machine} {block rest : Block} (ends : Ends code m final)
    (at_ : m.ahead code = block ++ rest) (silent : block.Silent) (straight : block.targets = []) :
    ∃ mid n, Steps code n m mid ∧ Ends code mid final ∧ mid.trace.toList = m.trace.toList ∧
      mid.ahead code = rest := by
  obtain ⟨mid, n, steps, ends', trace, ahead | ⟨l, mem, -⟩⟩ := ends.block at_ silent
  · exact ⟨mid, n, steps, ends', trace, ahead⟩
  · rw [straight] at mem
    cases mem

/-! ## Blocks that loop -/

/-- A statement of a block without comments notes labels of the block. -/
theorem noted_of_uncommented {block : Block} {s : Stmt} (uncommented : ∀ text, .comment text ∉ block)
    (mem : s ∈ block) :
    ∃ passed : List Label, (∀ l ∈ passed, l ∈ block.labels) ∧
      s.noted = passed.map fun l => l.text ++ ":" := by
  cases s with
  | comment text => exact absurd mem (uncommented text)
  | label l =>
    refine ⟨[l], fun k there => ?_, rfl⟩
    rw [List.mem_singleton.1 there]
    exact List.mem_filterMap.2 ⟨_, mem, rfl⟩
  | _ => exact ⟨[], fun k there => absurd there List.not_mem_nil, rfl⟩

/-- A block that jumps only to its own labels and to one other is left at its end or by a jump to
that one, however often it loops; it notes its own labels alone. The induction is on the length of
the run, since the block may loop: a step that stays in the block leaves a shorter run to go on
with. -/
theorem Ends.body {final : Machine} {before block after : Block} {outside : Label}
    (laid : code = before ++ (block ++ after)) (nodup : code.labels.Nodup)
    (uncommented : ∀ text, .comment text ∉ block)
    (targets : ∀ l ∈ block.targets, l = outside ∨ l ∈ block.labels)
    (ends : Ends code m final) (above : before.length ≤ m.next)
    (inside : m.next ≤ before.length + block.length) :
    ∃ (mid : Machine) (passed : List Label), Ends code mid final ∧
      (∀ l ∈ passed, l ∈ block.labels) ∧
      mid.trace.toList = m.trace.toList ++ passed.map (fun l => l.text ++ ":") ∧
      ((mid.next = before.length + block.length ∧ ∃ n, Steps code n m mid) ∨
        Jumps code m outside mid) := by
  have ends' := ends
  obtain ⟨halted, n, steps⟩ := ends'
  induction n generalizing m with
  | zero =>
    cases steps
    have out : code.length ≤ final.next := List.getElem?_eq_none_iff.1 halted
    rw [laid, List.length_append, List.length_append] at out
    exact ⟨final, [], ends, fun l mem => absurd mem List.not_mem_nil, by simp,
      .inl ⟨by omega, 0, .refl final⟩⟩
  | succ n ih =>
    by_cases atEnd : m.next = before.length + block.length
    · exact ⟨m, [], ends, fun l mem => absurd mem List.not_mem_nil, by simp,
        .inl ⟨atEnd, 0, .refl m⟩⟩
    · cases steps with
      | @step _ _ next _ s fetch run rest =>
        have there : block[m.next - before.length]? = some s := by
          rwa [laid, List.getElem?_append_right above, List.getElem?_append_left (by omega)] at fetch
        have mem := List.mem_of_getElem? there
        have moved := moved_of_step run
        obtain ⟨noted, own, noted_eq⟩ := noted_of_uncommented uncommented mem
        have first := Steps.single fetch run
        have stay (above' : before.length ≤ next.next)
            (inside' : next.next ≤ before.length + block.length) : ∃ (mid : Machine)
            (passed : List Label), Ends code mid final ∧ (∀ l ∈ passed, l ∈ block.labels) ∧
            mid.trace.toList = m.trace.toList ++ passed.map (fun l => l.text ++ ":") ∧
            ((mid.next = before.length + block.length ∧ ∃ n, Steps code n m mid) ∨
              Jumps code m outside mid) := by
          obtain ⟨mid, passed, ends', own', trace, outcome⟩ :=
            ih (ends.of_steps first) above' inside' rest
          refine ⟨mid, noted ++ passed, ends', fun l mem => ?_, ?_, ?_⟩
          · exact (List.mem_append.1 mem).elim (own l) (own' l)
          · rw [trace, moved.trace, noted_eq, List.map_append, List.append_assoc]
          · rcases outcome with ⟨atEnd, k, steps⟩ | jumps
            · exact .inl ⟨atEnd, 1 + k, first.trans steps⟩
            · exact .inr (jumps.of_steps first)
        rcases moved.next with onward | ⟨l, target, position⟩
        · exact stay (by omega) (by omega)
        · rcases targets l (Block.mem_targets.2 ⟨s, mem, target⟩) with rfl | mem'
          · exact ⟨next, noted, ends.of_steps first, own, by rw [moved.trace, noted_eq],
              .inr ⟨0, m, s, .refl m, fetch, target, run, position⟩⟩
          · rw [laid] at nodup position
            have := Block.position?_inside nodup mem' position
            exact stay (by omega) (by omega)

end Machine
end HostBridge
