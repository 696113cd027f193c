import StackMachine.Machine.Run

namespace StackMachine

/-- What a host call comes back with: one result for each kind of fault, one for success, and one
for a call without a session. -/
inductive HostResult where
  | ok
  | stackOverflow
  | stackUnderflow
  | frameUnderflow
  | callDepthExceeded
  | invalidOpcode
  | truncatedOperand
  | offsetOutOfRange
  | invalidHandle
  | fieldOutOfRange
  | typeMismatch
  | divisionByZero
  | outOfMemory
  | invalidLocal
  | alreadyHalted
  | destroyed
  | budgetExhausted
  | emptyCode
  | invalidConfig
  | invalidArgument
deriving DecidableEq, Repr

namespace HostResult

def code : HostResult → Nat
  | ok => 0
  | stackOverflow => 1
  | stackUnderflow => 2
  | frameUnderflow => 3
  | callDepthExceeded => 4
  | invalidOpcode => 5
  | truncatedOperand => 6
  | offsetOutOfRange => 7
  | invalidHandle => 8
  | fieldOutOfRange => 9
  | typeMismatch => 10
  | divisionByZero => 11
  | outOfMemory => 12
  | invalidLocal => 13
  | alreadyHalted => 14
  | destroyed => 15
  | budgetExhausted => 16
  | emptyCode => 17
  | invalidConfig => 18
  | invalidArgument => 19

def name : HostResult → String
  | ok => "Ok"
  | stackOverflow => "ErrorStackOverflow"
  | stackUnderflow => "ErrorStackUnderflow"
  | frameUnderflow => "ErrorFrameUnderflow"
  | callDepthExceeded => "ErrorCallDepthExceeded"
  | invalidOpcode => "ErrorInvalidOpcode"
  | truncatedOperand => "ErrorTruncatedOperand"
  | offsetOutOfRange => "ErrorOffsetOutOfRange"
  | invalidHandle => "ErrorInvalidHeapHandle"
  | fieldOutOfRange => "ErrorFieldOutOfRange"
  | typeMismatch => "ErrorTypeMismatch"
  | divisionByZero => "ErrorDivisionByZero"
  | outOfMemory => "ErrorOutOfMemory"
  | invalidLocal => "ErrorInvalidLocal"
  | alreadyHalted => "ErrorAlreadyHalted"
  | destroyed => "ErrorDestroyed"
  | budgetExhausted => "ErrorBudgetExhausted"
  | emptyCode => "ErrorEmptyBytecode"
  | invalidConfig => "ErrorInvalidConfig"
  | invalidArgument => "ErrorInvalidArg"

def isOk (result : HostResult) : Bool := result == ok

def isErr (result : HostResult) : Bool := result != ok

end HostResult

def FaultKind.result : FaultKind → HostResult
  | stackOverflow => .stackOverflow
  | stackUnderflow => .stackUnderflow
  | frameUnderflow => .frameUnderflow
  | callDepthExceeded => .callDepthExceeded
  | invalidOpcode => .invalidOpcode
  | truncatedOperand => .truncatedOperand
  | offsetOutOfRange => .offsetOutOfRange
  | invalidHandle => .invalidHandle
  | fieldOutOfRange => .fieldOutOfRange
  | typeMismatch => .typeMismatch
  | divisionByZero => .divisionByZero
  | outOfMemory => .outOfMemory
  | invalidLocal => .invalidLocal
  | alreadyHalted => .alreadyHalted
  | destroyed => .destroyed
  | budgetExhausted => .budgetExhausted
  | emptyCode => .emptyCode
  | invalidConfig => .invalidConfig

def Finish.result : Finish → HostResult
  | .completed => .ok
  | .failed fault _ => fault.kind.result

structure Session where
  machine : Machine
  lastError : Option String
  lastErrorIp : Option Nat
deriving DecidableEq, Repr

/-- The text as a host holds it. A host ends its strings with a NUL character, so it has none for a
text with one inside. -/
def Host.string? (text : String) : Option String :=
  if '\x00' ∈ text.toList then none else some text

namespace Session

def create? (code : Option Code) (config : Config) : Option Session :=
  code.bind fun code =>
    match Machine.create (.empty none) code config with
    | .ok m => some ⟨m, none, none⟩
    | .error _ => none

def setError (fault : Fault) (ip : Nat) (s : Session) : Session :=
  { s with lastError := Host.string? fault.message, lastErrorIp := some ip }

def clearError (s : Session) : Session := { s with lastError := none, lastErrorIp := none }

def keepError (s : Session) : Finish → Session
  | .completed => s.clearError
  | .failed fault ip => s.setError fault ip

/-- Runs the machine for at most `fuel` instructions. There is no result if it has not finished by
then. -/
def run (fuel : Nat) (s : Session) : Option HostResult × Session :=
  match s.machine.runFor fuel with
  | (.yielded, m) => (none, { s with machine := m })
  | (.finished finish, m) => (some finish.result, { s with machine := m }.keepError finish)

end Session

namespace Host

def versionMajor : UInt32 := 0

def versionMinor : UInt32 := 1

def versionPatch : UInt32 := 0

def version : String := "0.1.0"

example : version = s!"{versionMajor}.{versionMinor}.{versionPatch}" := by decide

def run (fuel : Nat) : Option Session → Option HostResult × Option Session
  | none => (some .invalidArgument, none)
  | some s =>
    let (result, s) := s.run fuel
    (result, some s)

def lastError? (s : Option Session) : Option String := s.bind Session.lastError

def hasError (s : Option Session) : Bool := (lastError? s).isSome

def errorIp (s : Option Session) : Int :=
  match s.bind Session.lastErrorIp with
  | some ip => if ip < 0x8000000000000000 then ip else -1
  | none => -1

def clearError (s : Option Session) : Option Session := s.map Session.clearError

def values (s : Option Session) : Array Value :=
  match s with
  | some s => s.machine.stack.values
  | none => #[]

def depth (s : Option Session) : Nat := (values s).size

def resolveIndex? (depth : Nat) (index : Int) : Option Nat :=
  if 0 ≤ index then if index.toNat < depth then some index.toNat else none
  else if index.natAbs ≤ depth then some (depth - index.natAbs)
  else none

def valueAt? (s : Option Session) (index : Int) : Option Value :=
  (resolveIndex? (depth s) index).bind fun i => (values s)[i]?

def peekInt? (s : Option Session) (index : Int) : Option Int64 :=
  (valueAt? s index).bind Value.toInt?

def peekFloat? (s : Option Session) (index : Int) : Option Binary64 :=
  (valueAt? s index).bind Value.toFloat?

/-- Writes what was found to the variable of the host, and says whether that was done. Without
anything found the variable keeps its content; a host may also give no variable. -/
def deliver {α : Type} (found out : Option α) : Bool × Option α :=
  match found, out with
  | some a, some _ => (true, some a)
  | _, _ => (false, out)

def peekInt (s : Option Session) (index : Int) (out : Option Int64) : Bool × Option Int64 :=
  deliver (peekInt? s index) out

def peekFloat (s : Option Session) (index : Int) (out : Option Binary64) :
    Bool × Option Binary64 :=
  deliver (peekFloat? s index) out

def isNull (s : Option Session) (index : Int) : Bool := (valueAt? s index).any Value.isNull

def isRef (s : Option Session) (index : Int) : Bool := (valueAt? s index).any Value.isRef

def destroy (_ : Option Session) : Option Session := none

end Host

end StackMachine
