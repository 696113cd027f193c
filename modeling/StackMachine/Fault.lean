import StackMachine.Value

namespace StackMachine

inductive Fault where
  | stackOverflow (max : Nat)
  | stackUnderflow
  | frameUnderflow
  | callDepthExceeded (max : Nat)
  | invalidOpcode (byte : UInt8)
  | truncatedOperand (byte : UInt8) (offset : Nat)
  | offsetOutOfRange (offset size : Nat)
  | invalidHandle (handle : Handle)
  | fieldOutOfRange (field length : Nat)
  | typeMismatch (operation found : String)
  | divisionByZero
  | outOfMemory (requested budget : Nat)
  | invalidLocal (index window : Nat)
  | alreadyHalted
  | destroyed
  | budgetExhausted (budget : Nat)
  | emptyCode
  | invalidConfig (reason : String)
deriving DecidableEq, Repr

inductive FaultKind where
  | stackOverflow
  | stackUnderflow
  | frameUnderflow
  | callDepthExceeded
  | invalidOpcode
  | truncatedOperand
  | offsetOutOfRange
  | invalidHandle
  | fieldOutOfRange
  | typeMismatch
  | divisionByZero
  | outOfMemory
  | invalidLocal
  | alreadyHalted
  | destroyed
  | budgetExhausted
  | emptyCode
  | invalidConfig
deriving DecidableEq, Repr

def FaultKind.name : FaultKind → String
  | stackOverflow => "StackOverflow"
  | stackUnderflow => "StackUnderflow"
  | frameUnderflow => "FrameUnderflow"
  | callDepthExceeded => "CallDepthExceeded"
  | invalidOpcode => "InvalidOpcode"
  | truncatedOperand => "TruncatedOperand"
  | offsetOutOfRange => "OffsetOutOfRange"
  | invalidHandle => "InvalidHeapHandle"
  | fieldOutOfRange => "FieldOutOfRange"
  | typeMismatch => "TypeMismatch"
  | divisionByZero => "DivisionByZero"
  | outOfMemory => "OutOfMemory"
  | invalidLocal => "InvalidLocal"
  | alreadyHalted => "AlreadyHalted"
  | destroyed => "Destroyed"
  | budgetExhausted => "BudgetExhausted"
  | emptyCode => "EmptyBytecode"
  | invalidConfig => "InvalidConfig"

def hexByte (b : UInt8) : String :=
  String.ofList [Nat.digitChar (b.toNat / 16), Nat.digitChar (b.toNat % 16)]

namespace Fault

def message : Fault → String
  | stackOverflow max => s!"stack overflow: depth limit {max} reached"
  | stackUnderflow => "stack underflow"
  | frameUnderflow => "frame underflow: return from the root frame"
  | callDepthExceeded max => s!"call depth exceeded: limit {max}"
  | invalidOpcode byte => s!"invalid opcode 0x{hexByte byte}"
  | truncatedOperand byte offset =>
    s!"truncated operand for opcode 0x{hexByte byte} at offset {offset}"
  | offsetOutOfRange offset size => s!"offset {offset} out of range (bytecode size {size})"
  | invalidHandle handle => s!"invalid heap handle {handle.text}"
  | fieldOutOfRange field length => s!"field {field} out of range (object has {length})"
  | typeMismatch operation found => s!"type mismatch in {operation}: found {found}"
  | divisionByZero => "division by zero"
  | outOfMemory requested budget =>
    s!"out of memory: {requested} bytes requested, budget {budget}"
  | invalidLocal index window => s!"local {index} outside frame window of {window}"
  | alreadyHalted => "vm already halted"
  | destroyed => "vm destroyed"
  | budgetExhausted budget => s!"instruction budget of {budget} exhausted"
  | emptyCode => "bytecode is empty"
  | invalidConfig reason => s!"invalid configuration: {reason}"

def kind : Fault → FaultKind
  | stackOverflow _ => .stackOverflow
  | stackUnderflow => .stackUnderflow
  | frameUnderflow => .frameUnderflow
  | callDepthExceeded _ => .callDepthExceeded
  | invalidOpcode _ => .invalidOpcode
  | truncatedOperand _ _ => .truncatedOperand
  | offsetOutOfRange _ _ => .offsetOutOfRange
  | invalidHandle _ => .invalidHandle
  | fieldOutOfRange _ _ => .fieldOutOfRange
  | typeMismatch _ _ => .typeMismatch
  | divisionByZero => .divisionByZero
  | outOfMemory _ _ => .outOfMemory
  | invalidLocal _ _ => .invalidLocal
  | alreadyHalted => .alreadyHalted
  | destroyed => .destroyed
  | budgetExhausted _ => .budgetExhausted
  | emptyCode => .emptyCode
  | invalidConfig _ => .invalidConfig

def mismatch (operation : String) (found : Value) : Fault :=
  typeMismatch operation found.typeName

end Fault

/-- A computation on a state that may fail. It says what state it leaves, also when it fails. -/
abbrev Action (σ α : Type) := EStateM Fault σ α

namespace Action

@[inline] def lift {σ α : Type} : Except Fault α → Action σ α
  | .ok a => pure a
  | .error e => throw e

/-- Runs an action on a part of a larger state, which `rebuild` puts together again around the
part. -/
@[inline] def within {σ τ α : Type} (action : Action σ α) (part : σ) (rebuild : σ → τ) :
    EStateM.Result Fault τ α :=
  match action part with
  | .ok a s => .ok a (rebuild s)
  | .error e s => .error e (rebuild s)

end Action

end StackMachine
