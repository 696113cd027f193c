import StackMachine.Machine.Exec
import StackMachine.Proofs.CallStack
import StackMachine.Proofs.Heap

namespace StackMachine.Machine

def replaceTop (k : Nat) (out : Array Value) (m : Machine) : Machine :=
  { m with stack := m.stack.replaceTop k out }

def pushEffect (v : Value) (m : Machine) : Except Fault Machine :=
  if m.stack.isFull then .error (.stackOverflow m.stack.maxDepth)
  else .ok (m.replaceTop 0 #[v])

def unaryEffect (f : Value → Except Fault Value) (m : Machine) : Except Fault Machine := do
  let v ← m.stack.operand 0
  let result ← f v
  return m.replaceTop 1 #[result]

def binaryEffect (f : Value → Value → Except Fault Value) (m : Machine) :
    Except Fault Machine := do
  let b ← m.stack.operand 0
  let a ← m.stack.operand 1
  let result ← f a b
  return m.replaceTop 2 #[result]

def handleAt (n : Nat) (op : Opcode) (m : Machine) : Except Fault Handle := do
  match ← m.stack.operand n with
  | .ref h => return h
  | other => throw (.mismatch op.mnemonic other)

def indexAt (n : Nat) (op : Opcode) (m : Machine) : Except Fault Nat := do
  match ← m.stack.operand n with
  | .int k => return if k.toInt < 0 then Heap.maxSize else k.toInt.toNat
  | other => throw (.mismatch op.mnemonic other)

def heapEffect {α : Type} (action : Action Heap α) (rest : α → Machine → Machine)
    (m : Machine) : Except Fault Machine :=
  (action.outcome m.heap).map fun (a, heap) => rest a { m with heap := heap }

def allocateEffect (kind : ObjectKind) (size : Nat) (m : Machine) : Except Fault Machine :=
  if m.stack.isFull then .error (.stackOverflow m.stack.maxDepth)
  else
    m.heapEffect (Heap.allocate kind size) fun handle m =>
      (m.note (.allocated handle kind size)).replaceTop 0 #[.ref handle]

def readEffect {α : Type} (op : Opcode) (action : Handle → Action Heap α) (value : α → Value)
    (m : Machine) : Except Fault Machine := do
  let handle ← m.handleAt 0 op
  let a ← (action handle).answer m.heap
  return m.replaceTop 1 #[value a]

/-- The effect of the instructions that go on behind themselves. -/
def change (i : Instr) (m : Machine) : Except Fault Machine :=
  match i with
  | .push n => m.pushEffect (.int n.toInt64)
  | .pushLong n => m.pushEffect (.int n)
  | .pushFloat x => m.pushEffect (.float x)
  | .pushNull => m.pushEffect .null
  | .pop => (m.stack.operand 0).map fun _ => m.replaceTop 1 #[]
  | .dup => do m.pushEffect (← m.stack.operand 0)
  | .swap => do
    let b ← m.stack.operand 0
    let a ← m.stack.operand 1
    return m.replaceTop 2 #[b, a]
  | .pick depth => do m.pushEffect (← m.stack.operand depth.toNat)
  | .arith op => m.binaryEffect (Value.arith op)
  | .neg => m.unaryEffect Value.neg
  | .bitwise op => m.binaryEffect (Value.bitwise op)
  | .eq => m.binaryEffect fun a b => .ok (.ofBool (a.equals b))
  | .ne => m.binaryEffect fun a b => .ok (.ofBool (!a.equals b))
  | .order op => m.binaryEffect (Value.order op)
  | .not => m.unaryEffect fun v => .ok (.ofBool (!v.isTruthy))
  | .intToFloat => m.unaryEffect Value.intToFloat
  | .floatToInt => m.unaryEffect Value.floatToInt
  | .load index => do m.pushEffect (← (CallStack.getLocal index.toNat).answer m.calls)
  | .store index => do
    let v ← m.stack.operand 0
    ((CallStack.setLocal index.toNat v).outcome m.calls).map fun (_, calls) =>
      { m with calls := calls }.replaceTop 1 #[]
  | .new kind size => m.allocateEffect kind size.toNat
  | .getField field => do
    let handle ← m.handleAt 0 .getField
    let v ← (Heap.read handle field.toNat).answer m.heap
    return m.replaceTop 1 #[v]
  | .setField field => do
    let v ← m.stack.operand 0
    let handle ← m.handleAt 1 .setField
    m.heapEffect (Heap.write handle field.toNat v) fun _ m => m.replaceTop 2 #[]
  | .getIndex => do
    let index ← m.indexAt 0 .getIndex
    let handle ← m.handleAt 1 .getIndex
    let v ← (Heap.read handle index).answer m.heap
    return m.replaceTop 2 #[v]
  | .setIndex => do
    let v ← m.stack.operand 0
    let index ← m.indexAt 1 .setIndex
    let handle ← m.handleAt 2 .setIndex
    m.heapEffect (Heap.write handle index v) fun _ m => m.replaceTop 3 #[]
  | .len => do
    let handle ← m.handleAt 0 .len
    let length ← (Heap.length handle).answer m.heap
    return m.replaceTop 1 #[.int (Int64.ofNat length)]
  | .free => do
    let handle ← m.handleAt 0 .free
    m.heapEffect (Heap.release handle) fun _ m =>
      (m.note (.freed handle)).replaceTop 1 #[]
  | _ => .ok m

def targetOf (target : UInt32) (m : Machine) : Except Fault Nat := do
  m.code.checkOffset target.toNat
  return target.toNat

def effect (i : Instr) (next : Nat) (m : Machine) : Except Fault (Control × Machine) :=
  match i with
  | .halt => .ok (.halt, m)
  | .jump target => (m.targetOf target).map fun target => (.jump target, m)
  | .branch sense target => do
    let v ← m.stack.operand 0
    if v.isTruthy = sense then
      (m.targetOf target).map fun target => (.jump target, m.replaceTop 1 #[])
    else .ok (.proceed, m.replaceTop 1 #[])
  | .call target argc => do
    let target ← m.targetOf target
    (m.checkEnter argc.toNat).map fun _ =>
      (.jump target, { m with toThread := m.entered next argc.toNat })
  | .ret count =>
    (m.checkLeave count.toNat).map fun frame =>
      (.jump frame.returnIp, { m with toThread := m.departed frame count.toNat })
  | i => (m.change i).map (.proceed, ·)

section

variable {m : Machine} {α : Type}

theorem peek_eq (n : Nat) : peek n m = Action.observe m (m.stack.operand n) := by
  simp only [peek, onStack, Action.within, OperandStack.peek_eq]
  cases m.stack.operand n <;> rfl

theorem push_eq (v : Value) : push v m = Action.settle m ((m.pushEffect v).map ((), ·)) := by
  simp only [push, onStack, Action.within, OperandStack.push_eq, pushEffect]
  by_cases full : m.stack.isFull
  · simp only [full, ↓reduceIte]
    rfl
  · simp only [full]
    rfl

theorem drop_eq :
    drop m = Action.settle m
      (((m.stack.operand 0).map fun _ => m.replaceTop 1 #[]).map ((), ·)) := by
  simp only [drop, onStack, bind, EStateM.bind, Action.within, OperandStack.pop_eq]
  cases m.stack.operand 0 <;> rfl

theorem drop_first (above : 0 < m.stack.available) : drop m = .ok () (m.replaceTop 1 #[]) := by
  obtain ⟨v, found⟩ := OperandStack.exists_operand above
  rw [drop_eq, found]
  rfl

theorem drop_next {k : Nat} (above : k < m.stack.available) :
    drop (m.replaceTop k #[]) = .ok () (m.replaceTop (k + 1) #[]) := by
  have left : 0 < (m.replaceTop k #[]).stack.available := by
    simp only [replaceTop, OperandStack.available, OperandStack.depth_replaceTop,
      OperandStack.floor_replaceTop, Array.size_empty] at above ⊢
    omega
  rw [drop_first left]
  simp only [replaceTop, OperandStack.replaceTop_replaceTop]

theorem push_next {k : Nat} {out : Array Value} {v : Value}
    (room : m.stack.depth - k + out.size < m.stack.maxDepth) :
    push v (m.replaceTop k out) = .ok () (m.replaceTop k (out.push v)) := by
  have notFull : (m.replaceTop k out).stack.isFull = false := by
    simp only [replaceTop, OperandStack.isFull, OperandStack.depth_replaceTop,
      OperandStack.maxDepth_replaceTop, decide_eq_false_iff_not]
    omega
  rw [push_eq, pushEffect, notFull]
  simp only [replaceTop, OperandStack.replaceTop_push]
  rfl

theorem lift_eq (r : Except Fault α) : Action.lift r m = Action.observe m r := by
  cases r <;> rfl

theorem handleOperand_eq (n : Nat) (op : Opcode) :
    handleOperand n op m = Action.observe m (m.handleAt n op) := by
  simp only [handleOperand, handleAt, bind, EStateM.bind, peek_eq]
  cases m.stack.operand n with
  | error e => rfl
  | ok v => cases v <;> rfl

theorem indexOperand_eq (n : Nat) (op : Opcode) :
    indexOperand n op m = Action.observe m (m.indexAt n op) := by
  simp only [indexOperand, indexAt, bind, EStateM.bind, peek_eq]
  cases m.stack.operand n with
  | error e => rfl
  | ok v => cases v <;> rfl

theorem lt_available_of_handleAt {n : Nat} {op : Opcode} {h : Handle}
    (found : m.handleAt n op = .ok h) : n < m.stack.available := by
  cases value : m.stack.operand n with
  | error e => simp [handleAt, value, bind, Except.bind] at found
  | ok v => exact OperandStack.lt_available_of_operand value

theorem jumpTarget_eq (target : UInt32) :
    jumpTarget target m = Action.observe m (m.targetOf target) := by
  unfold jumpTarget targetOf
  rw [Action.get_bind]
  simp only [bind, EStateM.bind, lift_eq]
  cases m.code.checkOffset target.toNat <;> rfl

theorem thenProceed_eq {action : Action Machine Unit} {r : Except Fault Machine}
    (h : action m = Action.settle m (r.map ((), ·))) :
    thenProceed action m = Action.settle m (r.map (.proceed, ·)) := by
  simp only [thenProceed, bind, EStateM.bind, h]
  cases r <;> rfl

theorem onHeap_eq {action : Action Heap α} (reads : action.ReadOnly m.heap) :
    onHeap action m = Action.observe m (action.answer m.heap) := by
  unfold Action.ReadOnly at reads
  simp only [onHeap, Action.within, reads]
  cases action.answer m.heap <;> rfl

theorem onCalls_eq {action : Action CallStack α} (reads : action.ReadOnly m.calls) :
    onCalls action m = Action.observe m (action.answer m.calls) := by
  unfold Action.ReadOnly at reads
  simp only [onCalls, Action.within, reads]
  cases action.answer m.calls <;> rfl

theorem onHeap_bind {action : Action Heap α} {f : α → Action Machine Unit}
    {rest : α → Machine → Machine} (atomic : action.Atomic m.heap)
    (done : ∀ a heap, f a { m with heap := heap } = .ok () (rest a { m with heap := heap })) :
    (onHeap action >>= f) m = Action.settle m ((m.heapEffect action rest).map ((), ·)) := by
  unfold Action.Atomic at atomic
  unfold heapEffect
  cases result : action.outcome m.heap with
  | error e =>
    rw [result] at atomic
    simp only [bind, EStateM.bind, onHeap, Action.within, atomic]
    rfl
  | ok pair =>
    rw [result] at atomic
    have first : onHeap action m = .ok pair.1 { m with heap := pair.2 } := by
      simp only [onHeap, Action.within, atomic]
      rfl
    rw [Action.bind_of_ok first, done]
    rfl

end

section

variable {m : Machine}

theorem replace_one (wf : m.stack.WellFormed) (above : 0 < m.stack.available) (v : Value) :
    (do drop; push v) m = .ok () (m.replaceTop 1 #[v]) := by
  have limit := wf.depth_le
  have room : m.stack.depth - 1 + 0 < m.stack.maxDepth := by
    unfold OperandStack.available at above
    omega
  rw [Action.bind_of_ok (drop_first above), push_next room]
  rfl

theorem replace_two (wf : m.stack.WellFormed) (above : 1 < m.stack.available) (v : Value) :
    (do drop; drop; push v) m = .ok () (m.replaceTop 2 #[v]) := by
  have limit := wf.depth_le
  have room : m.stack.depth - 2 + 0 < m.stack.maxDepth := by
    unfold OperandStack.available at above
    omega
  rw [Action.bind_of_ok (drop_first (by omega)), Action.bind_of_ok (drop_next above),
    push_next room]
  rfl

theorem unary_eq (wf : m.stack.WellFormed) (f : Value → Except Fault Value) :
    unary f m = Action.settle m ((m.unaryEffect f).map ((), ·)) := by
  apply Action.bind_observe_map (peek_eq 0)
  intro v found
  apply Action.bind_observe_map (lift_eq (f v))
  intro result _
  exact replace_one wf (OperandStack.lt_available_of_operand found) result

theorem binary_eq (wf : m.stack.WellFormed) (f : Value → Value → Except Fault Value) :
    binary f m = Action.settle m ((m.binaryEffect f).map ((), ·)) := by
  apply Action.bind_observe_map (peek_eq 0)
  intro b _
  apply Action.bind_observe_map (peek_eq 1)
  intro a found
  apply Action.bind_observe_map (lift_eq (f a b))
  intro result _
  exact replace_two wf (OperandStack.lt_available_of_operand found) result

theorem copy_eq (n : Nat) :
    thenProceed (do push (← peek n)) m =
      Action.settle m ((m.stack.operand n >>= m.pushEffect).map (.proceed, ·)) := by
  apply thenProceed_eq
  apply Action.bind_observe_map (peek_eq n)
  intro v _
  exact push_eq v

theorem exec_swap (wf : m.stack.WellFormed) (next : Nat) :
    exec .swap next m = Action.settle m (m.effect .swap next) := by
  apply thenProceed_eq
  apply Action.bind_observe_map (peek_eq 0)
  intro b _
  apply Action.bind_observe_map (peek_eq 1)
  intro a found
  have above := OperandStack.lt_available_of_operand found
  have limit := wf.depth_le
  have room : m.stack.depth - 2 + 1 < m.stack.maxDepth := by
    unfold OperandStack.available at above
    omega
  have roomFirst : m.stack.depth - 2 + 0 < m.stack.maxDepth := by omega
  rw [Action.bind_of_ok (drop_first (by omega)), Action.bind_of_ok (drop_next above),
    Action.bind_of_ok (push_next roomFirst), push_next room]
  rfl

theorem exec_jump (target : UInt32) (next : Nat) :
    exec (.jump target) next m = Action.settle m (m.effect (.jump target) next) := by
  simp only [exec, effect, bind, EStateM.bind, jumpTarget_eq]
  cases m.targetOf target <;> rfl

theorem exec_branch (sense : Bool) (target : UInt32) (next : Nat) :
    exec (.branch sense target) next m =
      Action.settle m (m.effect (.branch sense target) next) := by
  apply Action.bind_observe (peek_eq 0)
  intro v found
  have dropped := drop_first (OperandStack.lt_available_of_operand found)
  by_cases taken : v.isTruthy = sense
  · simp only [taken, ↓reduceIte, bind, EStateM.bind, jumpTarget_eq]
    cases m.targetOf target with
    | error e => rfl
    | ok offset =>
      simp only [Action.observe_ok, dropped]
      rfl
  · simp only [taken, ↓reduceIte, bind, EStateM.bind, dropped]
    rfl

theorem exec_call (target : UInt32) (argc : UInt8) (next : Nat) :
    exec (.call target argc) next m =
      Action.settle m (m.effect (.call target argc) next) := by
  apply Action.bind_observe (jumpTarget_eq target)
  intro offset _
  simp only [bind, EStateM.bind, onThread, Action.within, Thread.enter_eq]
  cases m.checkEnter argc.toNat <;> rfl

theorem exec_ret (coherent : m.Coherent) (count : UInt8) (next : Nat) :
    exec (.ret count) next m = Action.settle m (m.effect (.ret count) next) := by
  simp only [exec, effect, bind, EStateM.bind, onThread, Action.within,
    Thread.leave_eq coherent]
  cases m.checkLeave count.toNat <;> rfl

theorem exec_load (index : UInt8) (next : Nat) :
    exec (.load index) next m = Action.settle m (m.effect (.load index) next) := by
  apply thenProceed_eq
  apply Action.bind_observe_map (onCalls_eq (CallStack.getLocal_readOnly _ _))
  intro v _
  exact push_eq v

theorem exec_store (index : UInt8) (next : Nat) :
    exec (.store index) next m = Action.settle m (m.effect (.store index) next) := by
  apply thenProceed_eq
  apply Action.bind_observe_map (peek_eq 0)
  intro v found
  have above := OperandStack.lt_available_of_operand found
  have atomic := CallStack.setLocal_atomic index.toNat v m.calls
  unfold Action.Atomic at atomic
  cases result : (CallStack.setLocal index.toNat v).outcome m.calls with
  | error e =>
    have failed : onCalls (CallStack.setLocal index.toNat v) m = .error e m := by
      simp only [onCalls, Action.within, atomic, result]
      rfl
    exact Action.bind_of_error failed
  | ok pair =>
    have stored : onCalls (CallStack.setLocal index.toNat v) m =
        .ok pair.1 { m with calls := pair.2 } := by
      simp only [onCalls, Action.within, atomic, result]
      rfl
    exact (Action.bind_of_ok stored).trans (drop_first above)

theorem allocate_eq (kind : ObjectKind) (size : Nat) :
    allocate kind size m = Action.settle m ((m.allocateEffect kind size).map ((), ·)) := by
  unfold allocate allocateEffect
  rw [Action.get_bind]
  by_cases full : m.stack.isFull
  · simp only [full, ↓reduceIte]
    rfl
  · simp only [full, Bool.false_eq_true, ↓reduceIte]
    apply onHeap_bind (Heap.allocate_atomic _ _ _)
    intro handle heap
    have noted : report (.allocated handle kind size) { m with heap := heap } =
        .ok () ({ m with heap := heap }.note (.allocated handle kind size)) := rfl
    rw [Action.bind_of_ok noted, push_eq]
    simp only [pushEffect, note, full]
    rfl

theorem exec_new (kind : ObjectKind) (size : UInt32) (next : Nat) :
    exec (.new kind size) next m = Action.settle m (m.effect (.new kind size) next) :=
  thenProceed_eq (allocate_eq kind size.toNat)

theorem readThrough_eq {α : Type} {action : Handle → Action Heap α} (wf : m.stack.WellFormed)
    (reads : ∀ handle, (action handle).ReadOnly m.heap) (op : Opcode) (value : α → Value) :
    (do
      let handle ← handleOperand 0 op
      let a ← onHeap (action handle)
      drop
      push (value a)) m = Action.settle m ((m.readEffect op action value).map ((), ·)) := by
  apply Action.bind_observe_map (handleOperand_eq 0 op)
  intro handle found
  apply Action.bind_observe_map (onHeap_eq (reads handle))
  intro a _
  exact replace_one wf (lt_available_of_handleAt found) (value a)

theorem exec_getField (wf : m.stack.WellFormed) (field : UInt32) (next : Nat) :
    exec (.getField field) next m = Action.settle m (m.effect (.getField field) next) :=
  thenProceed_eq (readThrough_eq wf (fun _ => Heap.read_readOnly _ _ _) .getField id)

theorem exec_setField (field : UInt32) (next : Nat) :
    exec (.setField field) next m = Action.settle m (m.effect (.setField field) next) := by
  apply thenProceed_eq
  apply Action.bind_observe_map (peek_eq 0)
  intro v _
  apply Action.bind_observe_map (handleOperand_eq 1 .setField)
  intro handle found
  apply onHeap_bind (Heap.write_atomic _ _ _ _)
  intro _ heap
  have above : 1 < { m with heap := heap }.stack.available := lt_available_of_handleAt found
  rw [Action.bind_of_ok (drop_first (by omega)), drop_next above]

theorem exec_getIndex (wf : m.stack.WellFormed) (next : Nat) :
    exec .getIndex next m = Action.settle m (m.effect .getIndex next) := by
  apply thenProceed_eq
  apply Action.bind_observe_map (indexOperand_eq 0 .getIndex)
  intro index _
  apply Action.bind_observe_map (handleOperand_eq 1 .getIndex)
  intro handle found
  apply Action.bind_observe_map (onHeap_eq (Heap.read_readOnly _ _ _))
  intro v _
  exact replace_two wf (lt_available_of_handleAt found) v

theorem exec_setIndex (next : Nat) :
    exec .setIndex next m = Action.settle m (m.effect .setIndex next) := by
  apply thenProceed_eq
  apply Action.bind_observe_map (peek_eq 0)
  intro v _
  apply Action.bind_observe_map (indexOperand_eq 1 .setIndex)
  intro index _
  apply Action.bind_observe_map (handleOperand_eq 2 .setIndex)
  intro handle found
  apply onHeap_bind (Heap.write_atomic _ _ _ _)
  intro _ heap
  have above : 2 < { m with heap := heap }.stack.available := lt_available_of_handleAt found
  rw [Action.bind_of_ok (drop_first (by omega)), Action.bind_of_ok (drop_next (by omega)),
    drop_next above]

theorem exec_len (wf : m.stack.WellFormed) (next : Nat) :
    exec .len next m = Action.settle m (m.effect .len next) :=
  thenProceed_eq (readThrough_eq wf (fun _ => Heap.length_readOnly _ _) .len _)

theorem exec_free (next : Nat) :
    exec .free next m = Action.settle m (m.effect .free next) := by
  apply thenProceed_eq
  apply Action.bind_observe_map (handleOperand_eq 0 .free)
  intro handle found
  have above := lt_available_of_handleAt found
  apply onHeap_bind (Heap.release_atomic _ _)
  intro _ heap
  have noted : report (.freed handle) { m with heap := heap } =
      .ok () ({ m with heap := heap }.note (.freed handle)) := rfl
  exact (Action.bind_of_ok noted).trans (drop_first above)

theorem exec_eq (coherent : m.Coherent) (i : Instr) (next : Nat) :
    exec i next m = Action.settle m (m.effect i next) := by
  have wf := coherent.stack
  cases i with
  | nop => rfl
  | halt => rfl
  | push n => exact thenProceed_eq (push_eq _)
  | pushLong n => exact thenProceed_eq (push_eq _)
  | pushFloat x => exact thenProceed_eq (push_eq _)
  | pushNull => exact thenProceed_eq (push_eq _)
  | pop => exact thenProceed_eq drop_eq
  | dup => exact copy_eq 0
  | swap => exact exec_swap wf next
  | pick depth => exact copy_eq depth.toNat
  | arith op => exact thenProceed_eq (binary_eq wf _)
  | neg => exact thenProceed_eq (unary_eq wf _)
  | bitwise op => exact thenProceed_eq (binary_eq wf _)
  | eq => exact thenProceed_eq (binary_eq wf _)
  | ne => exact thenProceed_eq (binary_eq wf _)
  | order op => exact thenProceed_eq (binary_eq wf _)
  | not => exact thenProceed_eq (unary_eq wf _)
  | intToFloat => exact thenProceed_eq (unary_eq wf _)
  | floatToInt => exact thenProceed_eq (unary_eq wf _)
  | jump target => exact exec_jump target next
  | branch sense target => exact exec_branch sense target next
  | call target argc => exact exec_call target argc next
  | ret count => exact exec_ret coherent count next
  | load index => exact exec_load index next
  | store index => exact exec_store index next
  | new kind size => exact exec_new kind size next
  | getField field => exact exec_getField wf field next
  | setField field => exact exec_setField field next
  | getIndex => exact exec_getIndex wf next
  | setIndex => exact exec_setIndex next
  | len => exact exec_len wf next
  | free => exact exec_free next

end

end StackMachine.Machine
