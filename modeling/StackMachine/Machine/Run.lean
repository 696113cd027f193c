import StackMachine.Machine.Exec

namespace StackMachine

inductive Outcome where
  | yielded
  | finished (finish : Finish)
deriving DecidableEq, Repr

namespace Machine

def record (i : Instr) (m : Machine) : Machine :=
  let c := m.counters
  { m with
    counters :=
      { instructions := c.instructions + 1
        maxStackDepth := max c.maxStackDepth m.stack.depth
        maxCallDepth := max c.maxCallDepth m.calls.depth
        profile := if m.config.profileOpcodes then c.profile.record i.opcode else c.profile } }

def fetch : Action Machine (Instr × Nat) := do
  let m ← get
  let (i, next) ← Action.lift (m.code.decode m.ip)
  report (.dispatched m.ip i m.stack.depth)
  return (i, next)

/-- Counts a completed instruction and moves the instruction pointer. Says whether the machine has
a next instruction: it has none after a halt, and none behind the end of the code. -/
def advance (i : Instr) (next : Nat) (control : Control) : Action Machine Bool := fun m =>
  let m := m.record i
  match control with
  | .halt => .ok false { m with ip := next }
  | .proceed => .ok (decide (next < m.code.size)) { m with ip := next }
  | .jump target => .ok (decide (target < m.code.size)) { m with ip := target }

def cycle : Action Machine Bool := do
  let (i, next) ← fetch
  let control ← exec i next
  advance i next control

def complete (m : Machine) : Outcome × Machine :=
  (.finished .completed,
    { m with phase := .halted .completed }.note (.halted m.ip m.counters.instructions))

def fail (fault : Fault) (ip : Nat) (m : Machine) : Outcome × Machine :=
  (.finished (.failed fault ip),
    { m with ip := ip, phase := .halted (.failed fault ip) }.note
      (.failed fault ip m.counters.instructions))

def exhausted? (m : Machine) : Option Nat :=
  m.config.instructionBudget.filter fun budget => decide (budget ≤ m.counters.instructions)

def exhaust (budget : Nat) (m : Machine) : Outcome × Machine :=
  (m.note (.budgetExhausted budget m.ip)).fail (.budgetExhausted budget) m.ip

/-- Runs a machine for at most `fuel` instructions. The budget is looked at before the fuel. -/
def slice : Nat → Machine → Outcome × Machine
  | 0, m =>
    match m.exhausted? with
    | some budget => m.exhaust budget
    | none => (.yielded, m)
  | fuel + 1, m =>
    match m.exhausted? with
    | some budget => m.exhaust budget
    | none =>
      let ip := m.ip
      match cycle m with
      | .ok true m => slice fuel m
      | .ok false m => m.complete
      | .error e m => m.fail e ip

def runFor (fuel : Nat) (m : Machine) : Outcome × Machine :=
  match m.phase with
  | .ready => slice fuel ({ m with phase := .running }.note (.started m.ip))
  | .running => slice fuel m
  | .halted _ => (.finished (.failed .alreadyHalted m.ip), m)
  | .destroyed => (.finished (.failed .destroyed m.ip), m)

def step (m : Machine) : Outcome × Machine := m.runFor 1

def oneTurn (m : Machine) : Machine ⊕ Outcome × Machine :=
  match m.exhausted? with
  | some budget => .inr (m.exhaust budget)
  | none =>
    let ip := m.ip
    match cycle m with
    | .ok true m => .inl m
    | .ok false m => .inr m.complete
    | .error e m => .inr (m.fail e ip)

/-- Runs a machine until it finishes. Of a machine that never does, nothing is said. -/
def loop (m : Machine) : Outcome × Machine :=
  have : Nonempty (Outcome × Machine) := ⟨.yielded, m⟩
  repeatM (m := Id) oneTurn m

theorem loop_eq (m : Machine) : loop m = m.oneTurn.elim loop id := by
  have : Nonempty (Outcome × Machine) := ⟨.yielded, m⟩
  have unfolded : loop m = repeatM.body (m := Id) oneTurn loop m := repeatM_eq_of_monadTail m
  rw [unfolded, repeatM.body]
  cases m.oneTurn <;> rfl

def run (m : Machine) : Outcome × Machine :=
  match m.phase with
  | .ready => loop ({ m with phase := .running }.note (.started m.ip))
  | .running => loop m
  | .halted _ => (.finished (.failed .alreadyHalted m.ip), m)
  | .destroyed => (.finished (.failed .destroyed m.ip), m)

def RunsTo (m : Machine) (finish : Finish) (m' : Machine) : Prop :=
  ∃ fuel, m.runFor fuel = (.finished finish, m')

end Machine

end StackMachine
