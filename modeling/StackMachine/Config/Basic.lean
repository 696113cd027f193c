import StackMachine.Heap

namespace StackMachine

structure Config where
  maxStackDepth : Nat
  maxCallDepth : Nat
  heapBudget : Nat
  localsPerFrame : Nat
  instructionBudget : Option Nat
  profileOpcodes : Bool
deriving DecidableEq, Repr

namespace Config

def standard : Config where
  maxStackDepth := 1024
  maxCallDepth := 256
  heapBudget := Heap.defaultBudget
  localsPerFrame := 16
  instructionBudget := none
  profileOpcodes := false

def withLimits (maxStackDepth maxCallDepth heapBudget : Nat) : Config :=
  { standard with
    maxStackDepth := maxStackDepth
    maxCallDepth := maxCallDepth
    heapBudget := heapBudget }

/-- The locals that an instruction can name: the index is one byte. -/
def maxLocals : Nat := 256

def check (c : Config) : Except Fault Unit :=
  if c.maxStackDepth = 0 then .error (.invalidConfig "max_stack_depth must be positive")
  else if c.maxCallDepth = 0 then .error (.invalidConfig "max_call_depth must be positive")
  else if maxLocals < c.localsPerFrame then
    .error (.invalidConfig "locals_per_frame exceeds the addressable 256 locals")
  else .ok ()

end Config

end StackMachine
