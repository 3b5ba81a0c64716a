import HostBridge.Heap.Machine

/-!
# Runs as sequences of steps

`Steps code n m m'` counts the statements between two states of a machine. A run with
fuel ends exactly when a halted state is that many steps away (`runFor_eq_ok_iff`), and
`Host.RunsTo` is what a caller of the host sees of it.

`Machine.ahead` is the code a machine has still to run if it never jumps. Most region
code only moves on, so its steps are bounded by what it leaves behind: `Forward`.
-/

namespace HostBridge

/-- A sequence of answers is an answer when each of them is. -/
theorem ok_of_bind {ε α β : Type} {x : Except ε α} {f : α → Except ε β} {b : β}
    (ok : x >>= f = .ok b) : ∃ a, x = .ok a ∧ f a = .ok b := by
  cases x with
  | error e => cases ok
  | ok a => exact ⟨a, rfl, ok⟩

theorem bind_of_ok {ε α β : Type} {x : Except ε α} {a : α} (ok : x = .ok a) (f : α → Except ε β) :
    (x >>= f) = f a := by
  rw [ok]
  rfl

theorem bind_of_error {ε α β : Type} {x : Except ε α} {e : ε} (failed : x = .error e)
    (f : α → Except ε β) : (x >>= f) = .error e := by
  rw [failed]
  rfl

namespace Machine

variable {code : Block}

/-- `m` runs to `m'` in `n` statements. -/
inductive Steps (code : Block) : Nat → Machine → Machine → Prop where
  | refl (m : Machine) : Steps code 0 m m
  | step {n : Nat} {m mid m' : Machine} {s : Stmt} (fetch : code[m.next]? = some s)
      (run : m.step code s = .ok mid) (rest : Steps code n mid m') : Steps code (n + 1) m m'

/-- There is no statement left to run. -/
def Halted (code : Block) (m : Machine) : Prop :=
  code[m.next]? = none

theorem Steps.single {m m' : Machine} {s : Stmt} (fetch : code[m.next]? = some s)
    (run : m.step code s = .ok m') : Steps code 1 m m' :=
  .step fetch run (.refl m')

/-- Runs can be joined. -/
theorem Steps.trans {a b : Nat} {m mid m' : Machine} (first : Steps code a m mid)
    (second : Steps code b mid m') : Steps code (a + b) m m' := by
  induction first with
  | refl => simpa using second
  | step fetch run _ ih =>
    rw [Nat.add_right_comm]
    exact .step fetch run (ih second)

/-- A machine has one way to go, so a run to a halted state passes through every state
that can be reached. -/
theorem Steps.rest_of_halted {a b : Nat} {m mid m' : Machine} (whole : Steps code b m m')
    (halted : Halted code m') (part : Steps code a m mid) :
    ∃ c, a + c = b ∧ Steps code c mid m' := by
  induction part generalizing b with
  | refl => exact ⟨b, by omega, whole⟩
  | step fetch run _ ih =>
    cases whole with
    | refl =>
      rw [Halted, fetch] at halted
      cases halted
    | step fetch' run' rest =>
      cases Option.some.inj (fetch.symm.trans fetch')
      cases Except.ok.inj (run.symm.trans run')
      obtain ⟨c, hc, hrest⟩ := ih rest
      exact ⟨c, by omega, hrest⟩

/-- A machine that has halted needs no fuel. -/
theorem runFor_halted {fuel : Nat} {m : Machine} (halted : Halted code m) :
    m.runFor code fuel = .ok m := by
  rw [runFor, halted]

/-- Without fuel a machine that has not halted is out of steps. -/
theorem runFor_zero {m : Machine} {s : Stmt} (fetch : code[m.next]? = some s) :
    m.runFor code 0 = .error ⟨.stepLimit, m.host⟩ := by
  rw [runFor, fetch]

theorem runFor_succ {fuel : Nat} {m mid : Machine} {s : Stmt} (fetch : code[m.next]? = some s)
    (run : m.step code s = .ok mid) : m.runFor code (fuel + 1) = mid.runFor code fuel := by
  rw [runFor, fetch]
  simp only [run]

theorem runFor_crash {fuel : Nat} {m : Machine} {s : Stmt} {crash : Crash}
    (fetch : code[m.next]? = some s) (run : m.step code s = .error crash) :
    m.runFor code (fuel + 1) = .error crash := by
  rw [runFor, fetch]
  simp only [run]

/-- Enough fuel for the steps gives the state they lead to. -/
theorem runFor_of_steps {n fuel : Nat} {m m' : Machine} (steps : Steps code n m m')
    (halted : Halted code m') (enough : n ≤ fuel) : m.runFor code fuel = .ok m' := by
  induction steps generalizing fuel with
  | refl => exact runFor_halted halted
  | step fetch run _ ih =>
    obtain ⟨fuel, rfl⟩ : ∃ k, fuel = k + 1 := ⟨fuel - 1, by omega⟩
    rw [runFor_succ fetch run]
    exact ih halted (by omega)

/-- Too little fuel for the steps is reported as such, and as nothing else. -/
theorem runFor_of_short {n fuel : Nat} {m m' : Machine} (steps : Steps code n m m')
    (short : fuel < n) : ∃ h, m.runFor code fuel = .error ⟨.stepLimit, h⟩ := by
  induction steps generalizing fuel with
  | refl => omega
  | step fetch run _ ih =>
    cases fuel with
    | zero => exact ⟨_, runFor_zero fetch⟩
    | succ fuel =>
      rw [runFor_succ fetch run]
      exact ih (by omega)

/-- A run that ends is a sequence of steps to a halted state. -/
theorem steps_of_runFor {fuel : Nat} {m m' : Machine} (run : m.runFor code fuel = .ok m') :
    ∃ n, n ≤ fuel ∧ Steps code n m m' ∧ Halted code m' := by
  fun_induction runFor code fuel m with
  | case1 fuel m halted =>
    cases run
    exact ⟨0, Nat.zero_le _, .refl _, halted⟩
  | case2 m s fetch => cases run
  | case3 m s fetch fuel mid step ih =>
    obtain ⟨n, bound, steps, halted⟩ := ih run
    exact ⟨n + 1, Nat.succ_le_succ bound, .step fetch step steps, halted⟩
  | case4 m s fetch fuel crash step => cases run

/-- With fuel a run ends well exactly if a halted state is that many steps away. -/
theorem runFor_eq_ok_iff {fuel : Nat} {m m' : Machine} :
    m.runFor code fuel = .ok m' ↔ ∃ n, n ≤ fuel ∧ Steps code n m m' ∧ Halted code m' :=
  ⟨steps_of_runFor, fun ⟨_, bound, steps, halted⟩ => runFor_of_steps steps halted bound⟩

/-! ## The code ahead -/

/-- The code from the next statement on. -/
def ahead (code : Block) (m : Machine) : Block :=
  code.drop m.next

@[simp] theorem ahead_start (h : Host) : (start h).ahead code = code := rfl

theorem fetch_of_ahead {m : Machine} {s : Stmt} {rest : Block} (at_ : m.ahead code = s :: rest) :
    code[m.next]? = some s := by
  have := congrArg (·[0]?) at_
  simpa [ahead] using this

/-- Going on with the next statement leaves the rest ahead. -/
theorem ahead_succ {m m' : Machine} {s : Stmt} {rest : Block} (at_ : m.ahead code = s :: rest)
    (next : m'.next = m.next + 1) : m'.ahead code = rest := by
  have := congrArg List.tail at_
  simpa [ahead, next, List.tail_drop] using this

theorem halted_iff_ahead {m : Machine} : Halted code m ↔ m.ahead code = [] := by
  simp [Halted, ahead]

/-- `m` runs to `m'` in at most as many statements as it leaves behind. -/
def Forward (code : Block) (m m' : Machine) : Prop :=
  ∃ n, Steps code n m m' ∧ n + (m'.ahead code).length ≤ (m.ahead code).length

theorem Forward.refl (m : Machine) : Forward code m m :=
  ⟨0, .refl m, by omega⟩

theorem Forward.trans {m mid m' : Machine} (first : Forward code m mid)
    (second : Forward code mid m') : Forward code m m' := by
  obtain ⟨a, steps, bound⟩ := first
  obtain ⟨b, steps', bound'⟩ := second
  exact ⟨a + b, steps.trans steps', by omega⟩

/-- One statement that goes on with the next one. -/
theorem Forward.one {m m' : Machine} {s : Stmt} {rest : Block} (at_ : m.ahead code = s :: rest)
    (run : m.step code s = .ok m') (next : m'.next = m.next + 1) :
    Forward code m m' ∧ m'.ahead code = rest := by
  have ahead' := ahead_succ at_ next
  refine ⟨⟨1, .single (fetch_of_ahead at_) run, ?_⟩, ahead'⟩
  rw [ahead', at_, List.length_cons]
  omega

/-- One statement that jumps to code further on. -/
theorem Forward.jump {m m' : Machine} {s : Stmt} {rest : Block} (at_ : m.ahead code = s :: rest)
    (run : m.step code s = .ok m') (shorter : (m'.ahead code).length ≤ rest.length) :
    Forward code m m' := by
  refine ⟨1, .single (fetch_of_ahead at_) run, ?_⟩
  rw [at_, List.length_cons]
  omega

end Machine

/-- Running the block ends with this trace and this host. Only the limit on steps could
cut the run short, and it does not where it admits `need` steps. -/
def Host.RunsTo (h : Host) (code : Block) (need : Nat) (trace : Array String) (h' : Host) : Prop :=
  h.run code = (.ok trace, h') ∨ (stepLimit < need ∧ (h.run code).1 = .error .stepLimit)

/-- Within the limit the run is not cut short. -/
theorem Host.RunsTo.run_eq {h h' : Host} {code : Block} {need : Nat} {trace : Array String}
    (runs : h.RunsTo code need trace h') (admitted : need ≤ stepLimit) :
    h.run code = (.ok trace, h') :=
  runs.resolve_right fun ⟨short, _⟩ => absurd short (Nat.not_lt_of_le admitted)

/-- Steps to a halted state are a run, if the limit admits them. -/
theorem Host.runsTo_of_steps {h : Host} {code : Block} {n need : Nat} {m : Machine}
    (steps : Machine.Steps code n (Machine.start h) m) (halted : Machine.Halted code m)
    (bound : n ≤ need) : h.RunsTo code need m.trace m.host := by
  by_cases enough : n ≤ stepLimit
  · left
    rw [Host.run, Machine.runFor_of_steps steps halted enough]
  · right
    obtain ⟨h', run⟩ := Machine.runFor_of_short steps (Nat.lt_of_not_le enough)
    exact ⟨by omega, by rw [Host.run, run]⟩

/-- Code that only moves forward needs no more steps than it has statements. -/
theorem Host.runsTo_of_forward {h : Host} {code : Block} {m : Machine}
    (forward : Machine.Forward code (Machine.start h) m) (done : m.ahead code = []) :
    h.RunsTo code code.length m.trace m.host := by
  obtain ⟨n, steps, bound⟩ := forward
  exact runsTo_of_steps steps (Machine.halted_iff_ahead.2 done) (by simpa [done] using bound)

end HostBridge
