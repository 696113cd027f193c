import StackMachine.Machine.State
import StackMachine.Operators

namespace StackMachine

inductive Control where
  | proceed
  | jump (target : Nat)
  | halt
deriving DecidableEq, Repr

namespace Machine

/-- Runs an action on the operand stack alone. The machine is taken apart first, so that the action
holds the only reference to the stack and can change it in place. -/
@[inline] def onStack {α : Type} (action : Action OperandStack α) : Action Machine α
  | ⟨⟨stack, calls⟩, code, config, heap, ip, phase, counters, journal⟩ =>
    action.within stack fun stack =>
      ⟨⟨stack, calls⟩, code, config, heap, ip, phase, counters, journal⟩

@[inline] def onCalls {α : Type} (action : Action CallStack α) : Action Machine α
  | ⟨⟨stack, calls⟩, code, config, heap, ip, phase, counters, journal⟩ =>
    action.within calls fun calls =>
      ⟨⟨stack, calls⟩, code, config, heap, ip, phase, counters, journal⟩

@[inline] def onThread {α : Type} (action : Action Thread α) : Action Machine α
  | ⟨thread, code, config, heap, ip, phase, counters, journal⟩ =>
    action.within thread fun thread =>
      ⟨thread, code, config, heap, ip, phase, counters, journal⟩

@[inline] def onHeap {α : Type} (action : Action Heap α) : Action Machine α
  | ⟨thread, code, config, heap, ip, phase, counters, journal⟩ =>
    action.within heap fun heap =>
      ⟨thread, code, config, heap, ip, phase, counters, journal⟩

@[inline] def report (e : Event) : Action Machine Unit := modify (note e)

def push (v : Value) : Action Machine Unit := onStack (OperandStack.push v)

def peek (n : Nat) : Action Machine Value := onStack (OperandStack.peek n)

def drop : Action Machine Unit := do
  let _ ← onStack OperandStack.pop

@[specialize] def unary (f : Value → Except Fault Value) : Action Machine Unit := do
  let v ← peek 0
  let result ← Action.lift (f v)
  drop
  push result

@[specialize] def binary (f : Value → Value → Except Fault Value) : Action Machine Unit := do
  let b ← peek 0
  let a ← peek 1
  let result ← Action.lift (f a b)
  drop
  drop
  push result

def handleOperand (n : Nat) (op : Opcode) : Action Machine Handle := do
  match ← peek n with
  | .ref h => pure h
  | other => throw (.mismatch op.mnemonic other)

/-- The index `n` places below the top. A negative one names a field that no object has. -/
def indexOperand (n : Nat) (op : Opcode) : Action Machine Nat := do
  match ← peek n with
  | .int k => pure (if k.toInt < 0 then Heap.maxSize else k.toInt.toNat)
  | other => throw (.mismatch op.mnemonic other)

def jumpTarget (target : UInt32) : Action Machine Nat := do
  let m ← get
  Action.lift (m.code.checkOffset target.toNat)
  return target.toNat

def allocate (kind : ObjectKind) (size : Nat) : Action Machine Unit := do
  let m ← get
  if m.stack.isFull then
    throw (.stackOverflow m.stack.maxDepth)
  let handle ← onHeap (Heap.allocate kind size)
  report (.allocated handle kind size)
  push (.ref handle)

@[inline] def thenProceed (action : Action Machine Unit) : Action Machine Control := do
  action
  return .proceed

def exec (i : Instr) (next : Nat) : Action Machine Control :=
  match i with
  | .nop => return .proceed
  | .halt => return .halt
  | .push n => thenProceed (push (.int n.toInt64))
  | .pushLong n => thenProceed (push (.int n))
  | .pushFloat x => thenProceed (push (.float x))
  | .pushNull => thenProceed (push .null)
  | .pop => thenProceed drop
  | .dup => thenProceed do
    let v ← peek 0
    push v
  | .swap => thenProceed do
    let b ← peek 0
    let a ← peek 1
    drop
    drop
    push b
    push a
  | .pick depth => thenProceed do
    let v ← peek depth.toNat
    push v
  | .arith op => thenProceed (binary (Value.arith op))
  | .neg => thenProceed (unary Value.neg)
  | .bitwise op => thenProceed (binary (Value.bitwise op))
  | .eq => thenProceed (binary fun a b => .ok (.ofBool (a.equals b)))
  | .ne => thenProceed (binary fun a b => .ok (.ofBool (!a.equals b)))
  | .order op => thenProceed (binary (Value.order op))
  | .not => thenProceed (unary fun v => .ok (.ofBool (!v.isTruthy)))
  | .intToFloat => thenProceed (unary Value.intToFloat)
  | .floatToInt => thenProceed (unary Value.floatToInt)
  | .jump target => do
    let target ← jumpTarget target
    return .jump target
  | .branch sense target => do
    let v ← peek 0
    if v.isTruthy = sense then
      let target ← jumpTarget target
      drop
      return .jump target
    else
      drop
      return .proceed
  | .call target argc => do
    let target ← jumpTarget target
    onThread (Thread.enter next argc.toNat)
    return .jump target
  | .ret count => do
    let returnIp ← onThread (Thread.leave count.toNat)
    return .jump returnIp
  | .load index => thenProceed do
    let v ← onCalls (CallStack.getLocal index.toNat)
    push v
  | .store index => thenProceed do
    let v ← peek 0
    onCalls (CallStack.setLocal index.toNat v)
    drop
  | .new kind size => thenProceed (allocate kind size.toNat)
  | .getField field => thenProceed do
    let handle ← handleOperand 0 .getField
    let v ← onHeap (Heap.read handle field.toNat)
    drop
    push v
  | .setField field => thenProceed do
    let v ← peek 0
    let handle ← handleOperand 1 .setField
    onHeap (Heap.write handle field.toNat v)
    drop
    drop
  | .getIndex => thenProceed do
    let index ← indexOperand 0 .getIndex
    let handle ← handleOperand 1 .getIndex
    let v ← onHeap (Heap.read handle index)
    drop
    drop
    push v
  | .setIndex => thenProceed do
    let v ← peek 0
    let index ← indexOperand 1 .setIndex
    let handle ← handleOperand 2 .setIndex
    onHeap (Heap.write handle index v)
    drop
    drop
    drop
  | .len => thenProceed do
    let handle ← handleOperand 0 .len
    let length ← onHeap (Heap.length handle)
    drop
    push (.int (Int64.ofNat length))
  | .free => thenProceed do
    let handle ← handleOperand 0 .free
    onHeap (Heap.release handle)
    report (.freed handle)
    drop

end Machine

end StackMachine
