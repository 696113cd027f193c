import StackMachine.OperandStack

namespace StackMachine

structure Frame where
  returnIp : Nat
  base : Nat
  locals : Array Value
deriving DecidableEq, Repr

namespace Frame

def blank (returnIp base window : Nat) : Frame := ⟨returnIp, base, Array.replicate window .null⟩

def window (f : Frame) : Nat := f.locals.size

def getLocal (f : Frame) (index : Nat) : Except Fault Value :=
  match f.locals[index]? with
  | some v => .ok v
  | none => .error (.invalidLocal index f.window)

def setLocal (f : Frame) (index : Nat) (v : Value) : Except Fault Frame :=
  if index < f.window then .ok { f with locals := f.locals.setIfInBounds index v }
  else .error (.invalidLocal index f.window)

end Frame

structure CallStack where
  frames : Array Frame
  maxDepth : Nat
  localsPerFrame : Nat
deriving DecidableEq, Repr

namespace CallStack

def root (maxDepth localsPerFrame : Nat) : CallStack :=
  ⟨#[.blank 0 0 localsPerFrame], maxDepth, localsPerFrame⟩

def depth (c : CallStack) : Nat := c.frames.size - 1

def current? (c : CallStack) : Option Frame := c.frames.back?

def base (c : CallStack) : Nat :=
  match c.current? with
  | some frame => frame.base
  | none => 0

def release (c : CallStack) : CallStack := { c with frames := #[] }

def getLocal (index : Nat) : Action CallStack Value := fun c =>
  match c.current? with
  | none => .error .frameUnderflow c
  | some frame =>
    match frame.getLocal index with
    | .ok v => .ok v c
    | .error e => .error e c

def setLocal (index : Nat) (v : Value) : Action CallStack Unit := fun c =>
  match c.current? with
  | none => .error .frameUnderflow c
  | some frame =>
    match frame.setLocal index v with
    | .ok frame => .ok () { c with frames := c.frames.pop.push frame }
    | .error e => .error e c

end CallStack

/-- A thread of control: the operand stack and the calls that share it. -/
structure Thread where
  stack : OperandStack
  calls : CallStack
deriving DecidableEq, Repr

namespace Thread

@[inline] def onStack {α : Type} (action : Action OperandStack α) : Action Thread α
  | ⟨stack, calls⟩ => action.within stack fun stack => ⟨stack, calls⟩

@[inline] def onCalls {α : Type} (action : Action CallStack α) : Action Thread α
  | ⟨stack, calls⟩ => action.within calls fun calls => ⟨stack, calls⟩

/-- Pops `n` values into the first `n` locals, the last one popped into the first. -/
def popArguments : Nat → Frame → Action OperandStack Frame
  | 0, frame => pure frame
  | n + 1, frame => do
    let v ← OperandStack.pop
    let frame ← Action.lift (frame.setLocal n v)
    popArguments n frame

def enter (returnIp argc : Nat) : Action Thread Unit := do
  let t ← get
  if t.calls.maxDepth ≤ t.calls.depth then
    throw (.callDepthExceeded t.calls.maxDepth)
  if t.calls.localsPerFrame < argc then
    throw (.invalidLocal (argc - 1) t.calls.localsPerFrame)
  if t.stack.available < argc then
    throw .stackUnderflow
  let frame ← onStack (popArguments argc (.blank returnIp 0 t.calls.localsPerFrame))
  let base := (← get).stack.depth
  onStack (OperandStack.setFloor base)
  modify fun t => { t with calls.frames := t.calls.frames.push { frame with base } }

def leave (count : Nat) : Action Thread Nat := do
  let t ← get
  if t.calls.frames.size ≤ 1 then
    throw .frameUnderflow
  if t.stack.available < count then
    throw .stackUnderflow
  match t.calls.current? with
  | none => throw .frameUnderflow
  | some frame =>
    modify fun t => { t with calls.frames := t.calls.frames.pop }
    onStack (OperandStack.collapse frame.base count)
    let floor := (← get).calls.base
    onStack (OperandStack.setFloor floor)
    return frame.returnIp

end Thread

end StackMachine
