import HostBridge.Proofs.Run.Control

/-!
# Code inside other code

A block runs inside other code as it runs alone, if its labels lead to the same statements
there (`Block.Embeds`). Positions are shifted, what was passed before stays in the trace, and
variables that are left over from before cannot disturb it: a run that ends well uses no
variable that it has not declared (`Machine.Carried`).

Both halves of a joined block are embedded in it, the second one without conditions.
-/

namespace HostBridge

/-- Every statement of the code stands that much further on in the whole, and every label leads
there to the same statement. -/
structure Block.Embeds (code whole : Block) (offset : Nat) : Prop where
  fetch : ∀ i s, code[i]? = some s → whole[offset + i]? = some s
  position : ∀ l i, code.position? l = some i → whole.position? l = some (offset + i)

/-- The first half of a joined block, if the second one does not define its labels anew. -/
theorem Block.embeds_append_left {a b : Block} (apart : ∀ l ∈ a.labels, l ∉ b.labels) :
    a.Embeds (a ++ b) 0 where
  fetch := by
    intro i s there
    have inside := (List.getElem?_eq_some_iff.1 there).1
    rw [Nat.zero_add, List.getElem?_append_left inside, there]
  position := by
    intro l i found
    have defined : l ∈ a.labels := by
      apply Classical.byContradiction
      intro out
      rw [position?_eq_none_iff.2 out] at found
      cases found
    rw [Nat.zero_add, position?_append_of_not_mem (apart l defined), found]

/-- A label that is defined in both halves leads to the second one. -/
theorem Block.embeds_append_right (a b : Block) : b.Embeds (a ++ b) a.length where
  fetch := by
    intro i s there
    rw [List.getElem?_append_right (by omega), Nat.add_sub_cancel_left, there]
  position := by
    intro l i found
    exact position?_append_of_mem found

namespace Machine

/-- `m'` is where `m` is in code that begins `offset` statements later; it has passed more
before, and may have more variables. -/
structure Carried (offset : Nat) (earlier : Array String) (m m' : Machine) : Prop where
  host : m'.host = m.host
  vars : ∀ v content, m.vars.get? v = some content → m'.vars.get? v = some content
  trace : m'.trace = earlier ++ m.trace
  next : m'.next = offset + m.next

section Carried

variable {code whole : Block} {offset : Nat} {earlier : Array String} {m m' n : Machine}

theorem Carried.withHost (carried : Carried offset earlier m m') (h : Host) :
    Carried offset earlier { m with host := h } { m' with host := h } :=
  ⟨rfl, carried.vars, carried.trace, carried.next⟩

/-- Both machines get the variable, and those left over stay behind it. -/
theorem Carried.put (carried : Carried offset earlier m m') (v : String) (content : VarContent) :
    Carried offset earlier { m with vars := m.vars.put v content }
      { m' with vars := m'.vars.put v content } where
  host := carried.host
  vars := by
    intro other content' there
    rw [Table.get?_put] at there ⊢
    by_cases same : v = other
    · rwa [if_pos same] at there ⊢
    · rw [if_neg same] at there ⊢
      exact carried.vars other content' there
  trace := carried.trace
  next := carried.next

theorem Carried.advance (carried : Carried offset earlier m m') :
    Carried offset earlier m.advance m'.advance where
  host := carried.host
  vars := carried.vars
  trace := carried.trace
  next := by
    show m'.next + 1 = offset + (m.next + 1)
    rw [carried.next, Nat.add_assoc]

theorem Carried.pass (carried : Carried offset earlier m m') (entry : String) :
    Carried offset earlier (m.pass entry) (m'.pass entry) where
  host := carried.host
  vars := carried.vars
  trace := by
    show m'.trace.push entry = earlier ++ m.trace.push entry
    rw [carried.trace, Array.append_push]
  next := carried.next

/-! ### Parts of statements -/

/-- What the block reads by itself it reads among the other code. -/
theorem Carried.readHandle (carried : Carried offset earlier m m') {place : Place} {handle : Handle}
    (read : m.readHandle place = .ok handle) : m'.readHandle place = .ok handle := by
  cases place with
  | native var =>
    unfold Machine.readHandle at read ⊢
    dsimp only at read ⊢
    split at read
    · next there => rwa [carried.vars _ _ there]
    · cases read
    · cases read
  | host name =>
    unfold Machine.readHandle at read ⊢
    rwa [carried.host]

theorem Carried.readScalar (carried : Carried offset earlier m m') {var : String}
    {type : ScalarType} {value : Literal} (read : m.readScalar var type = .ok value) :
    m'.readScalar var type = .ok value := by
  unfold Machine.readScalar at read ⊢
  split at read
  · next there => rwa [carried.vars _ _ there]
  · cases read
  · cases read

theorem Carried.unboxed? (carried : Carried offset earlier m m') (handle : Handle)
    (type : ScalarType) : m'.unboxed? handle type = m.unboxed? handle type := by
  unfold Machine.unboxed?
  rw [carried.host]

/-- A handle is written where the block has a variable or the host a slot, so in both machines. -/
theorem Carried.writeHandle (carried : Carried offset earlier m m') {place : Place}
    {handle : Handle} (write : m.writeHandle place handle = .ok n) :
    ∃ n', m'.writeHandle place handle = .ok n' ∧ Carried offset earlier n n' := by
  cases place with
  | native var =>
    unfold Machine.writeHandle at write ⊢
    dsimp only at write ⊢
    split at write
    · next there =>
      cases write
      rw [carried.vars _ _ there]
      exact ⟨_, rfl, carried.put var _⟩
    · cases write
    · cases write
  | host name =>
    unfold Machine.writeHandle at write ⊢
    dsimp only at write ⊢
    rw [carried.host]
    split at write
    · cases write
      exact ⟨_, rfl, carried.withHost _⟩
    · cases write

theorem Carried.writeScalar (carried : Carried offset earlier m m') {var : String} {value : Literal}
    (write : m.writeScalar var value = .ok n) :
    ∃ n', m'.writeScalar var value = .ok n' ∧ Carried offset earlier n n' := by
  unfold Machine.writeScalar at write ⊢
  split at write
  · next there =>
    rw [carried.vars _ _ there]
    dsimp only
    split at write
    · next fits =>
      cases write
      rw [if_pos fits]
      exact ⟨_, rfl, carried.put var _⟩
    · cases write
  · cases write
  · cases write

/-- Both hosts are the same, so a reference is taken in both. -/
theorem Carried.acquire (carried : Carried offset earlier m m') {handle : Handle}
    (acquire : m.acquire handle = .ok n) :
    ∃ n', m'.acquire handle = .ok n' ∧ Carried offset earlier n n' := by
  unfold Machine.acquire at acquire ⊢
  rw [carried.host]
  split at acquire
  · cases acquire
    exact ⟨_, rfl, carried⟩
  · split at acquire
    · next live =>
      cases acquire
      rw [if_pos live]
      exact ⟨_, rfl, carried.withHost _⟩
    · cases acquire

theorem Carried.giveBack (carried : Carried offset earlier m m') {handle : Handle}
    (giveBack : m.giveBack handle = .ok n) :
    ∃ n', m'.giveBack handle = .ok n' ∧ Carried offset earlier n n' := by
  unfold Machine.giveBack at giveBack ⊢
  rw [carried.host]
  split at giveBack
  · cases giveBack
    exact ⟨_, rfl, carried⟩
  · split at giveBack
    · next live =>
      cases giveBack
      rw [if_pos live]
      exact ⟨_, rfl, carried.withHost _⟩
    · cases giveBack

/-- A label of the block is found in the whole code, as far behind as the block stands. -/
theorem Carried.jump (carried : Carried offset earlier m m') (embeds : code.Embeds whole offset)
    {target : Label} (jump : m.jump code target = .ok n) :
    ∃ n', m'.jump whole target = .ok n' ∧ Carried offset earlier n n' := by
  unfold Machine.jump at jump ⊢
  split at jump
  · next i position =>
    cases jump
    rw [embeds.position target i position]
    exact ⟨_, rfl, carried.host, carried.vars, carried.trace, rfl⟩
  · cases jump

/-! ### Statements and runs -/

theorem attempt_of_ok {α : Type} {x : Except Fault α} {a : α} (ok : x = .ok a) (m : Machine) :
    m.attempt x = .ok a := by
  rw [ok]
  rfl

/-- A statement that succeeds does the same in the whole. -/
theorem Carried.step (carried : Carried offset earlier m m') (embeds : code.Embeds whole offset)
    {s : Stmt} (run : m.step code s = .ok n) :
    ∃ n', m'.step whole s = .ok n' ∧ Carried offset earlier n n' := by
  cases s with
  | comment text =>
    cases run
    exact ⟨_, rfl, (carried.pass text).advance⟩
  | label l =>
    cases run
    exact ⟨_, rfl, (carried.pass (l.text ++ ":")).advance⟩
  | declare var type =>
    cases run
    exact ⟨_, rfl, (carried.put var type.start).advance⟩
  | incRef place =>
    obtain ⟨handle, read, run⟩ := ok_of_bind run
    obtain ⟨mid, acquire, run⟩ := ok_of_bind run
    cases run
    have read' := attempt_of_ok (carried.readHandle (ok_of_attempt read)) m'
    obtain ⟨mid', acquire', carried'⟩ := carried.acquire (ok_of_attempt acquire)
    refine ⟨_, ?_, carried'.advance⟩
    rw [Machine.step, bind_of_ok read', bind_of_ok (attempt_of_ok acquire' m')]
  | decRef place =>
    obtain ⟨handle, read, run⟩ := ok_of_bind run
    obtain ⟨mid, giveBack, run⟩ := ok_of_bind run
    cases run
    have read' := attempt_of_ok (carried.readHandle (ok_of_attempt read)) m'
    obtain ⟨mid', giveBack', carried'⟩ := carried.giveBack (ok_of_attempt giveBack)
    refine ⟨_, ?_, carried'.advance⟩
    rw [Machine.step, bind_of_ok read', bind_of_ok (attempt_of_ok giveBack' m')]
  | assign dst src =>
    obtain ⟨handle, read, run⟩ := ok_of_bind run
    obtain ⟨mid, write, run⟩ := ok_of_bind run
    cases run
    have read' := attempt_of_ok (carried.readHandle (ok_of_attempt read)) m'
    obtain ⟨mid', write', carried'⟩ := carried.writeHandle (ok_of_attempt write)
    refine ⟨_, ?_, carried'.advance⟩
    rw [Machine.step, bind_of_ok read', bind_of_ok (attempt_of_ok write' m')]
  | clear place =>
    obtain ⟨mid, write, run⟩ := ok_of_bind run
    cases run
    obtain ⟨mid', write', carried'⟩ := carried.writeHandle (ok_of_attempt write)
    refine ⟨_, ?_, carried'.advance⟩
    rw [Machine.step, bind_of_ok (attempt_of_ok write' m')]
  | store var value =>
    obtain ⟨mid, write, run⟩ := ok_of_bind run
    cases run
    obtain ⟨mid', write', carried'⟩ := carried.writeScalar (ok_of_attempt write)
    refine ⟨_, ?_, carried'.advance⟩
    rw [Machine.step, bind_of_ok (attempt_of_ok write' m')]
  | unbox dst src type fail =>
    obtain ⟨handle, read, run⟩ := ok_of_bind run
    obtain ⟨value?, unboxed, run⟩ := ok_of_bind run
    have read' := attempt_of_ok (carried.readHandle (ok_of_attempt read)) m'
    have unboxed' := attempt_of_ok
      ((carried.unboxed? handle type).trans (ok_of_attempt unboxed)) m'
    rw [Machine.step, bind_of_ok read', bind_of_ok unboxed']
    cases value? with
    | none =>
      obtain ⟨n', jump', carried'⟩ :=
        (carried.withHost (m.host.report _)).jump embeds (ok_of_attempt run)
      refine ⟨n', attempt_of_ok ?_ _, carried'⟩
      rw [carried.host]
      exact jump'
    | some value =>
      obtain ⟨mid, write, run⟩ := ok_of_bind run
      cases run
      obtain ⟨mid', write', carried'⟩ := carried.writeScalar (ok_of_attempt write)
      exact ⟨_, bind_of_ok (attempt_of_ok write' m') _, carried'.advance⟩
  | box dst src type =>
    obtain ⟨value, read, run⟩ := ok_of_bind run
    have read' := attempt_of_ok (carried.readScalar (ok_of_attempt read)) m'
    rw [Machine.step, bind_of_ok read', carried.host]
    split at run
    · next fails =>
      obtain ⟨mid, write, run⟩ := ok_of_bind run
      cases run
      obtain ⟨mid', write', carried'⟩ :=
        (carried.withHost (m.host.report _)).writeHandle (ok_of_attempt write)
      refine ⟨_, ?_, carried'.advance⟩
      rw [if_pos fails]
      exact bind_of_ok (attempt_of_ok write' _) _
    · next works =>
      obtain ⟨mid, write, run⟩ := ok_of_bind run
      cases run
      obtain ⟨mid', write', carried'⟩ :=
        (carried.withHost (m.host.allocate (.scalar value))).writeHandle (ok_of_attempt write)
      refine ⟨_, ?_, carried'.advance⟩
      rw [if_neg works]
      exact bind_of_ok (attempt_of_ok write' _) _
  | gotoIfNull place target =>
    obtain ⟨handle, read, run⟩ := ok_of_bind run
    have read' := attempt_of_ok (carried.readHandle (ok_of_attempt read)) m'
    rw [Machine.step, bind_of_ok read']
    cases handle with
    | none =>
      obtain ⟨n', jump', carried'⟩ := carried.jump embeds (ok_of_attempt run)
      exact ⟨n', attempt_of_ok jump' m', carried'⟩
    | some a =>
      cases run
      exact ⟨_, rfl, carried.advance⟩
  | goto target =>
    obtain ⟨n', jump', carried'⟩ := carried.jump embeds (ok_of_attempt run)
    exact ⟨n', attempt_of_ok jump' m', carried'⟩

/-- A run takes the same steps in the whole. -/
theorem Carried.steps (carried : Carried offset earlier m m') (embeds : code.Embeds whole offset)
    {k : Nat} (steps : Steps code k m n) :
    ∃ n', Steps whole k m' n' ∧ Carried offset earlier n n' := by
  induction steps generalizing m' with
  | refl => exact ⟨m', .refl m', carried⟩
  | step fetch run _ ih =>
    obtain ⟨mid', run', carried'⟩ := carried.step embeds run
    obtain ⟨n', steps', carried''⟩ := ih carried'
    have fetch' := embeds.fetch _ _ fetch
    rw [← carried.next] at fetch'
    exact ⟨n', .step fetch' run' steps', carried''⟩

end Carried

/-! ## Joined blocks -/

variable {code : Block} {m m' : Machine}

/-- A run does not get further than behind the last statement. -/
theorem Steps.next_le {k : Nat} (steps : Steps code k m m') (inside : m.next ≤ code.length) :
    m'.next ≤ code.length := by
  induction steps with
  | refl => exact inside
  | step fetch run _ ih =>
    apply ih
    have bound := (List.getElem?_eq_some_iff.1 fetch).1
    rcases (moved_of_step run).next with onward | ⟨l, -, position⟩
    · omega
    · exact Nat.le_of_lt (Block.position?_lt_length position)

/-- Two runs one after the other are a run of the joined block. The second one starts without
variables, so those of the first one are all left over and do not matter. -/
theorem Steps.append {a b : Block} {h : Host} {i j : Nat} {n : Machine}
    (apart : ∀ l ∈ a.labels, l ∉ b.labels) (first : Steps a i (Machine.start h) m)
    (halted : Halted a m) (second : Steps b j (Machine.start m.host) n) (halted' : Halted b n) :
    ∃ n', Steps (a ++ b) (i + j) (Machine.start h) n' ∧ Halted (a ++ b) n' ∧ n'.host = n.host ∧
      n'.trace = m.trace ++ n.trace := by
  have alike : Carried 0 #[] (Machine.start h) (Machine.start h) :=
    ⟨rfl, fun _ _ there => there, by simp, by simp⟩
  obtain ⟨mid, steps, carried⟩ := alike.steps (Block.embeds_append_left apart) first
  have here : m.next = a.length := by
    have le := first.next_le (Nat.zero_le _)
    have ge := List.getElem?_eq_none_iff.1 halted
    omega
  have behind : Carried a.length m.trace (Machine.start m.host) mid := by
    constructor
    · exact carried.host
    · intro v content there
      cases there
    · simp [Machine.start, carried.trace]
    · simp [Machine.start, carried.next, here]
  obtain ⟨n', steps', carried'⟩ := behind.steps (Block.embeds_append_right a b) second
  refine ⟨n', steps.trans steps', ?_, carried'.host, carried'.trace⟩
  have bound := List.getElem?_eq_none_iff.1 halted'
  rw [Halted, carried'.next, List.getElem?_eq_none_iff, List.length_append]
  omega

end Machine
end HostBridge
