import StackMachine.CallStack
import StackMachine.Config.Basic
import StackMachine.Machine.Counters
import StackMachine.Machine.Journal

namespace StackMachine

/-- How a run ended. A program completes by halting or by running off its end. -/
inductive Finish where
  | completed
  | failed (fault : Fault) (ip : Nat)
deriving DecidableEq, Repr

inductive Phase where
  | ready
  | running
  | halted (finish : Finish)
  | destroyed
deriving DecidableEq, Repr

structure Machine extends Thread where
  code : Code
  config : Config
  heap : Heap
  ip : Nat
  phase : Phase
  counters : Counters
  journal : Journal
deriving DecidableEq, Repr

namespace Machine

@[inline] def note (e : Event) (m : Machine) : Machine := { m with journal := m.journal.add e }

/-- A machine over a stack and a heap that are already in use. Their limits stand in for those of
the configuration. -/
def ofParts (journal : Journal) (code : Code) (stack : OperandStack) (heap : Heap)
    (config : Config) : Except Fault Machine :=
  let config := { config with maxStackDepth := stack.maxDepth, heapBudget := heap.budget }
  match config.check with
  | .error e => .error e
  | .ok () =>
    if code.size = 0 then .error .emptyCode
    else
      let m : Machine :=
        { stack := stack
          calls := .root config.maxCallDepth config.localsPerFrame
          code := code
          config := config
          heap := heap
          ip := 0
          phase := .ready
          counters := .zero
          journal := journal }
      .ok (m.note (.created code.size config.maxStackDepth config.maxCallDepth config.heapBudget))

def create (journal : Journal) (code : Code) (config : Config) : Except Fault Machine :=
  ofParts journal code (.empty config.maxStackDepth) (.empty config.heapBudget) config

def top? (m : Machine) : Option Value := m.stack.top?

def stats (m : Machine) : Stats := ⟨m.counters, m.heap.live, m.heap.bytesInUse⟩

def destroy (m : Machine) : Machine :=
  if m.phase = .destroyed then m
  else
    { m with
      heap := m.heap.clear
      stack := m.stack.release
      calls := m.calls.release
      phase := .destroyed }.note (.destroyed m.counters.instructions)

end Machine

end StackMachine
