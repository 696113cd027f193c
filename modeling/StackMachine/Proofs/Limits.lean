import StackMachine.Proofs.Atomicity
import StackMachine.Proofs.Slices

namespace StackMachine

def Fault.isLimit : Fault → Bool
  | stackOverflow _ | callDepthExceeded _ | outOfMemory _ _ | budgetExhausted _ => true
  | _ => false

def Outcome.isLimit : Outcome → Bool
  | .finished (.failed fault _) => fault.isLimit
  | _ => false

/-- What higher limits may make of a result: it stays, unless it reports a limit. -/
inductive Echoes {α : Type} (R : α → α → Prop) : Except Fault α → Except Fault α → Prop where
  | ok {a a' : α} : R a a' → Echoes R (.ok a) (.ok a')
  | error (e : Fault) : Echoes R (.error e) (.error e)
  | limit {e : Fault} {r : Except Fault α} : e.isLimit = true → Echoes R (.error e) r

namespace Echoes

variable {α β : Type} {R : α → α → Prop} {S : β → β → Prop} {x y : Except Fault α}

theorem map {f g : α → β} (first : Echoes R x y) (last : ∀ {a a'}, R a a' → S (f a) (g a')) :
    Echoes S (x.map f) (y.map g) := by
  cases first with
  | ok related => exact .ok (last related)
  | error e => exact .error e
  | limit limited => exact .limit limited

theorem look_map {f g : α → β} (same : y = x) (last : ∀ a, S (f a) (g a)) :
    Echoes S (x.map f) (y.map g) := by
  subst same
  cases y with
  | ok a => exact .ok (last a)
  | error e => exact .error e

theorem look {f g : α → Except Fault β} (same : y = x) (rest : ∀ a, Echoes S (f a) (g a)) :
    Echoes S (x >>= f) (y >>= g) := by
  subst same
  cases y with
  | ok a => exact rest a
  | error e => exact .error e

end Echoes

def Action.Echoes {σ α : Type} (R : σ → σ → Prop) (action : Action σ α) (s s' : σ) : Prop :=
  StackMachine.Echoes (fun left right => right.1 = left.1 ∧ R left.2 right.2)
    (action.outcome s) (action.outcome s')

namespace OperandStack

structure Widens (s s' : OperandStack) : Prop where
  values : s'.values = s.values
  floor : s'.floor = s.floor
  limit : s.maxDepth ≤ s'.maxDepth

namespace Widens

variable {s s' : OperandStack} (widens : s.Widens s')
include widens

theorem depth : s'.depth = s.depth := by
  rw [OperandStack.depth, widens.values, OperandStack.depth]

theorem available : s'.available = s.available := by
  rw [OperandStack.available, widens.depth, widens.floor, OperandStack.available]

theorem operand (n : Nat) : s'.operand n = s.operand n := by
  unfold OperandStack.operand
  rw [widens.available, widens.depth, widens.values]

theorem not_full (room : ¬ s.isFull = true) : ¬ s'.isFull = true := by
  have limit := widens.limit
  have depth := widens.depth
  simp only [isFull, decide_eq_true_eq] at room ⊢
  omega

theorem replaceTop (k : Nat) (out : Array Value) :
    (s.replaceTop k out).Widens (s'.replaceTop k out) := by
  refine ⟨?_, widens.floor, widens.limit⟩
  unfold OperandStack.replaceTop
  rw [widens.values, widens.depth]

theorem collapsed (base keep : Nat) : (s.collapsed base keep).Widens (s'.collapsed base keep) := by
  unfold OperandStack.collapsed
  refine ⟨?_, ?_, widens.limit⟩
  · rw [widens.values, widens.depth]
  · rw [widens.values, widens.depth, widens.floor]

end Widens

end OperandStack

namespace CallStack

structure Widens (c c' : CallStack) : Prop where
  frames : c'.frames = c.frames
  localsPerFrame : c'.localsPerFrame = c.localsPerFrame
  limit : c.maxDepth ≤ c'.maxDepth

namespace Widens

variable {c c' : CallStack} (widens : c.Widens c')
include widens

theorem depth : c'.depth = c.depth := by
  rw [CallStack.depth, widens.frames, CallStack.depth]

theorem current? : c'.current? = c.current? := by
  rw [CallStack.current?, widens.frames, CallStack.current?]

theorem popped : c.popped.Widens c'.popped := by
  refine ⟨?_, widens.localsPerFrame, widens.limit⟩
  unfold CallStack.popped
  rw [widens.frames]

theorem base : c'.base = c.base := by
  unfold CallStack.base
  rw [widens.current?]

theorem getLocal (index : Nat) :
    (CallStack.getLocal index).answer c' = (CallStack.getLocal index).answer c := by
  unfold Action.answer CallStack.getLocal
  rw [widens.current?]
  cases c.current? with
  | none => rfl
  | some frame => cases found : frame.getLocal index <;> simp only [found]

theorem setLocal (index : Nat) (v : Value) : (CallStack.setLocal index v).Echoes Widens c c' := by
  unfold Action.Echoes Action.outcome CallStack.setLocal
  rw [widens.current?]
  cases c.current? with
  | none => exact .error _
  | some frame =>
    dsimp only
    cases frame.setLocal index v with
    | error e => exact .error e
    | ok frame =>
      refine .ok ⟨rfl, ?_, widens.localsPerFrame, widens.limit⟩
      rw [widens.frames]

end Widens

end CallStack

namespace Heap

structure Widens (heap heap' : Heap) : Prop where
  slots : heap'.slots = heap.slots
  free : heap'.free = heap.free
  live : heap'.live = heap.live
  bytesInUse : heap'.bytesInUse = heap.bytesInUse
  limit : heap.budget ≤ heap'.budget

namespace Widens

variable {heap heap' : Heap} (widens : heap.Widens heap')
include widens

theorem get? (h : Handle) : heap'.get? h = heap.get? h := by
  unfold Heap.get?
  rw [widens.slots]

theorem read (h : Handle) (field : Nat) :
    (Heap.read h field).answer heap' = (Heap.read h field).answer heap := by
  unfold Action.answer Heap.read
  rw [widens.get?]
  cases heap.get? h with
  | none => rfl
  | some object => cases found : object.get? field <;> simp only [found]

theorem length (h : Handle) :
    (Heap.length h).answer heap' = (Heap.length h).answer heap := by
  unfold Action.answer Heap.length
  rw [widens.get?]
  cases heap.get? h <;> rfl

theorem write (h : Handle) (field : Nat) (v : Value) :
    (Heap.write h field v).Echoes Widens heap heap' := by
  unfold Action.Echoes Action.outcome Heap.write checkWrite
  rw [widens.get?]
  cases heap.get? h with
  | none => exact .error _
  | some object =>
    dsimp only
    cases object.checkStore field v with
    | error e => exact .error e
    | ok _ =>
      refine .ok ⟨rfl, ?_, widens.free, widens.live, widens.bytesInUse, widens.limit⟩
      rw [widens.slots]

theorem release (h : Handle) : (Heap.release h).Echoes Widens heap heap' := by
  unfold Action.Echoes Action.outcome Heap.release
  rw [widens.get?]
  cases heap.get? h with
  | none => exact .error _
  | some object =>
    refine .ok ⟨rfl, ?_, ?_, ?_, ?_, widens.limit⟩
    · rw [widens.slots]
    · rw [widens.free]
    · rw [widens.live]
    · rw [widens.bytesInUse]

theorem place (index charge : Nat) (object : Object) :
    (Heap.place index charge object heap).Widens (Heap.place index charge object heap') := by
  refine ⟨?_, widens.free, ?_, ?_, widens.limit⟩
  · unfold Heap.place
    rw [widens.slots]
  · unfold Heap.place
    rw [widens.live]
  · unfold Heap.place
    rw [widens.bytesInUse]

theorem allocate (kind : ObjectKind) (n : Nat) :
    (Heap.allocate kind n).Echoes Widens heap heap' := by
  unfold Action.Echoes Action.outcome Heap.allocate
  dsimp only
  by_cases huge : maxSize < kind.charge n
  · rw [if_pos huge]
    exact .limit rfl
  by_cases expensive : heap.budget < heap.bytesInUse + kind.charge n
  · rw [if_neg huge, if_pos expensive]
    exact .limit rfl
  have affordable : ¬ heap'.budget < heap'.bytesInUse + kind.charge n := by
    have limit := widens.limit
    have bytes := widens.bytesInUse
    omega
  rw [if_neg huge, if_neg huge, if_neg expensive, if_neg affordable, widens.free]
  cases free : heap.free with
  | cons index rest =>
    dsimp only
    rw [widens.slots]
    refine .ok ⟨rfl, ?_⟩
    apply Widens.place
    exact ⟨rfl, rfl, widens.live, widens.bytesInUse, widens.limit⟩
  | nil =>
    dsimp only
    rw [widens.slots]
    by_cases full : maxSlots ≤ heap.slots.size
    · rw [if_pos full]
      exact .limit rfl
    · rw [if_neg full, if_neg full]
      refine .ok ⟨rfl, ?_⟩
      apply Widens.place
      exact ⟨rfl, rfl, widens.live, widens.bytesInUse, widens.limit⟩

end Widens

end Heap

namespace Thread

variable {t t' : Thread}

theorem checkEnter_echoes (stack : t.stack.Widens t'.stack) (calls : t.calls.Widens t'.calls)
    (argc : Nat) : Echoes (fun _ _ => True) (t.checkEnter argc) (t'.checkEnter argc) := by
  unfold checkEnter
  by_cases deep : t.calls.maxDepth ≤ t.calls.depth
  · rw [if_pos deep]
    exact .limit rfl
  have shallow : ¬ t'.calls.maxDepth ≤ t'.calls.depth := by
    have limit := calls.limit
    have depth := calls.depth
    omega
  rw [if_neg deep, if_neg shallow, calls.localsPerFrame, stack.available]
  split
  · exact .error _
  · split
    · exact .error _
    · exact .ok trivial

theorem checkLeave_eq (stack : t.stack.Widens t'.stack) (calls : t.calls.Widens t'.calls)
    (count : Nat) : t'.checkLeave count = t.checkLeave count := by
  unfold checkLeave
  rw [calls.frames, stack.available, calls.current?]

theorem newFrame_eq (stack : t.stack.Widens t'.stack) (calls : t.calls.Widens t'.calls)
    (returnIp argc : Nat) : t'.newFrame returnIp argc = t.newFrame returnIp argc := by
  unfold newFrame
  rw [stack.depth, stack.values, calls.localsPerFrame]

end Thread

namespace Machine

structure Widens (m m' : Machine) : Prop where
  stack : m.stack.Widens m'.stack
  calls : m.calls.Widens m'.calls
  heap : m.heap.Widens m'.heap
  code : m'.code = m.code

namespace Widens

variable {m m' : Machine} (widens : m.Widens m')
include widens

theorem note (e e' : Event) : (m.note e).Widens (m'.note e') :=
  ⟨widens.stack, widens.calls, widens.heap, widens.code⟩

theorem replaceTop (k : Nat) (out : Array Value) :
    (m.replaceTop k out).Widens (m'.replaceTop k out) :=
  ⟨widens.stack.replaceTop k out, widens.calls, widens.heap, widens.code⟩

theorem handleAt (n : Nat) (op : Opcode) : m'.handleAt n op = m.handleAt n op := by
  unfold Machine.handleAt
  rw [widens.stack.operand]

theorem indexAt (n : Nat) (op : Opcode) : m'.indexAt n op = m.indexAt n op := by
  unfold Machine.indexAt
  rw [widens.stack.operand]

theorem targetOf (target : UInt32) : m'.targetOf target = m.targetOf target := by
  unfold Machine.targetOf
  rw [widens.code]

theorem pushEffect (v : Value) : Echoes Widens (m.pushEffect v) (m'.pushEffect v) := by
  unfold Machine.pushEffect
  by_cases full : m.stack.isFull = true
  · rw [if_pos full]
    exact .limit rfl
  · rw [if_neg full, if_neg (widens.stack.not_full full)]
    exact .ok (widens.replaceTop 0 #[v])

theorem unaryEffect (f : Value → Except Fault Value) :
    Echoes Widens (m.unaryEffect f) (m'.unaryEffect f) := by
  apply Echoes.look (widens.stack.operand 0)
  intro v
  apply Echoes.look rfl
  intro result
  exact .ok (widens.replaceTop 1 #[result])

theorem binaryEffect (f : Value → Value → Except Fault Value) :
    Echoes Widens (m.binaryEffect f) (m'.binaryEffect f) := by
  apply Echoes.look (widens.stack.operand 0)
  intro b
  apply Echoes.look (widens.stack.operand 1)
  intro a
  apply Echoes.look rfl
  intro result
  exact .ok (widens.replaceTop 2 #[result])

theorem heapEffect {α : Type} {action : Action Heap α} {rest : α → Machine → Machine}
    (first : action.Echoes Heap.Widens m.heap m'.heap)
    (last : ∀ {n n'} (a : α), Widens n n' → Widens (rest a n) (rest a n')) :
    Echoes Widens (m.heapEffect action rest) (m'.heapEffect action rest) := by
  apply Echoes.map first
  rintro ⟨a, heap⟩ ⟨_, heap'⟩ ⟨rfl, wider⟩
  exact last _ ⟨widens.stack, widens.calls, wider, widens.code⟩

theorem allocateEffect (kind : ObjectKind) (size : Nat) :
    Echoes Widens (m.allocateEffect kind size) (m'.allocateEffect kind size) := by
  unfold Machine.allocateEffect
  by_cases full : m.stack.isFull = true
  · rw [if_pos full]
    exact .limit rfl
  · rw [if_neg full, if_neg (widens.stack.not_full full)]
    apply widens.heapEffect (widens.heap.allocate kind size)
    intro n n' handle wider
    exact (wider.note _ _).replaceTop 0 #[.ref handle]

theorem copy {x y : Except Fault Value} (same : y = x) :
    Echoes Widens (do m.pushEffect (← x)) (do m'.pushEffect (← y)) :=
  .look same fun v => widens.pushEffect v

theorem change (i : Instr) : Echoes Widens (m.change i) (m'.change i) := by
  have operand := widens.stack.operand
  cases i with
  | push n => exact widens.pushEffect _
  | pushLong n => exact widens.pushEffect _
  | pushFloat x => exact widens.pushEffect _
  | pushNull => exact widens.pushEffect _
  | pop => exact .look_map (operand 0) fun _ => widens.replaceTop 1 #[]
  | dup => exact widens.copy (operand 0)
  | swap =>
    apply Echoes.look (operand 0)
    intro b
    apply Echoes.look (operand 1)
    intro a
    exact .ok (widens.replaceTop 2 #[b, a])
  | pick depth => exact widens.copy (operand depth.toNat)
  | arith op => exact widens.binaryEffect _
  | neg => exact widens.unaryEffect _
  | bitwise op => exact widens.binaryEffect _
  | eq => exact widens.binaryEffect _
  | ne => exact widens.binaryEffect _
  | order op => exact widens.binaryEffect _
  | not => exact widens.unaryEffect _
  | intToFloat => exact widens.unaryEffect _
  | floatToInt => exact widens.unaryEffect _
  | load index => exact widens.copy (widens.calls.getLocal index.toNat)
  | store index =>
    apply Echoes.look (operand 0)
    intro v
    apply Echoes.map (widens.calls.setLocal index.toNat v)
    rintro ⟨_, calls⟩ ⟨_, calls'⟩ ⟨_, wider⟩
    have stored : Widens { m with calls := calls } { m' with calls := calls' } :=
      ⟨widens.stack, wider, widens.heap, widens.code⟩
    exact stored.replaceTop 1 #[]
  | new kind size => exact widens.allocateEffect kind size.toNat
  | getField field =>
    apply Echoes.look (widens.handleAt 0 .getField)
    intro handle
    apply Echoes.look (widens.heap.read handle field.toNat)
    intro v
    exact .ok (widens.replaceTop 1 #[v])
  | setField field =>
    apply Echoes.look (operand 0)
    intro v
    apply Echoes.look (widens.handleAt 1 .setField)
    intro handle
    exact widens.heapEffect (widens.heap.write _ _ _) fun _ wider => wider.replaceTop 2 #[]
  | getIndex =>
    apply Echoes.look (widens.indexAt 0 .getIndex)
    intro index
    apply Echoes.look (widens.handleAt 1 .getIndex)
    intro handle
    apply Echoes.look (widens.heap.read handle index)
    intro v
    exact .ok (widens.replaceTop 2 #[v])
  | setIndex =>
    apply Echoes.look (operand 0)
    intro v
    apply Echoes.look (widens.indexAt 1 .setIndex)
    intro index
    apply Echoes.look (widens.handleAt 2 .setIndex)
    intro handle
    exact widens.heapEffect (widens.heap.write _ _ _) fun _ wider => wider.replaceTop 3 #[]
  | len =>
    apply Echoes.look (widens.handleAt 0 .len)
    intro handle
    apply Echoes.look (widens.heap.length handle)
    intro length
    exact .ok (widens.replaceTop 1 #[.int (Int64.ofNat length)])
  | free =>
    apply Echoes.look (widens.handleAt 0 .free)
    intro handle
    exact widens.heapEffect (widens.heap.release handle) fun _ wider =>
      (wider.note _ _).replaceTop 1 #[]
  | _ => exact .ok widens

theorem entered (returnIp argc : Nat) :
    Widens { m with toThread := m.entered returnIp argc }
      { m' with toThread := m'.entered returnIp argc } := by
  have fewer := widens.stack.replaceTop argc #[]
  refine ⟨⟨fewer.values, ?_, fewer.limit⟩, ⟨?_, widens.calls.localsPerFrame, widens.calls.limit⟩,
    widens.heap, widens.code⟩
  · unfold Thread.entered
    rw [widens.stack.depth]
  · unfold Thread.entered
    rw [Thread.newFrame_eq widens.stack widens.calls, widens.calls.frames]

theorem departed (frame : Frame) (count : Nat) :
    Widens { m with toThread := m.departed frame count }
      { m' with toThread := m'.departed frame count } := by
  have fewer := widens.stack.collapsed frame.base count
  have popped := widens.calls.popped
  exact ⟨⟨fewer.values, popped.base, fewer.limit⟩, popped, widens.heap, widens.code⟩

theorem effect (i : Instr) (next : Nat) :
    Echoes (fun left right => right.1 = left.1 ∧ Widens left.2 right.2) (m.effect i next)
      (m'.effect i next) := by
  cases i with
  | nop => exact .ok ⟨rfl, widens⟩
  | halt => exact .ok ⟨rfl, widens⟩
  | jump target => exact .look_map (widens.targetOf target) fun _ => ⟨rfl, widens⟩
  | branch sense target =>
    apply Echoes.look (widens.stack.operand 0)
    intro v
    by_cases taken : v.isTruthy = sense
    · rw [if_pos taken, if_pos taken]
      exact .look_map (widens.targetOf target) fun _ => ⟨rfl, widens.replaceTop 1 #[]⟩
    · rw [if_neg taken, if_neg taken]
      exact .ok ⟨rfl, widens.replaceTop 1 #[]⟩
  | call target argc =>
    apply Echoes.look (widens.targetOf target)
    intro offset
    apply Echoes.map (Thread.checkEnter_echoes widens.stack widens.calls argc.toNat)
    intro _ _ _
    exact ⟨rfl, widens.entered next argc.toNat⟩
  | ret count =>
    apply Echoes.look_map (Thread.checkLeave_eq widens.stack widens.calls count.toNat)
    intro frame
    exact ⟨rfl, widens.departed frame count.toNat⟩
  | _ => exact (widens.change _).map fun wider => ⟨rfl, wider⟩

end Widens

/-- The machine `m'` does the same work as `m`, under higher limits. -/
structure Shadows (m m' : Machine) : Prop extends Widens m m' where
  ip : m'.ip = m.ip
  phase : m'.phase = m.phase
  instructions : m'.counters.instructions = m.counters.instructions
  maxStackDepth : m'.counters.maxStackDepth = m.counters.maxStackDepth
  maxCallDepth : m'.counters.maxCallDepth = m.counters.maxCallDepth
  budget : ∀ limit', m'.config.instructionBudget = some limit' →
    ∃ limit, m.config.instructionBudget = some limit ∧ limit ≤ limit'

namespace Shadows

variable {m m' n n' : Machine}

theorem note (shadows : m.Shadows m') (e e' : Event) : (m.note e).Shadows (m'.note e') :=
  ⟨shadows.toWidens.note e e', shadows.ip, shadows.phase, shadows.instructions,
    shadows.maxStackDepth, shadows.maxCallDepth, shadows.budget⟩

theorem moved (shadows : m.Shadows m') {ip ip' : Nat} (same : ip' = ip) (phase : Phase) :
    Shadows { m with ip := ip, phase := phase } { m' with ip := ip', phase := phase } :=
  ⟨⟨shadows.stack, shadows.calls, shadows.heap, shadows.code⟩, same, rfl, shadows.instructions,
    shadows.maxStackDepth, shadows.maxCallDepth, shadows.budget⟩

theorem of_effect (shadows : m.Shadows m') (widens : n.Widens n')
    (rest : n = { m with toThread := n.toThread, heap := n.heap, journal := n.journal })
    (rest' : n' = { m' with toThread := n'.toThread, heap := n'.heap, journal := n'.journal }) :
    n.Shadows n' := by
  refine ⟨widens, ?_, ?_, ?_, ?_, ?_, ?_⟩
  -- An instruction leaves the fields that `Widens` does not compare.
  all_goals rw [rest, rest']
  · exact shadows.ip
  · exact shadows.phase
  · exact shadows.instructions
  · exact shadows.maxStackDepth
  · exact shadows.maxCallDepth
  · exact shadows.budget

theorem record (shadows : m.Shadows m') (i : Instr) (ip : Nat) :
    Shadows { m.record i with ip := ip } { m'.record i with ip := ip } := by
  refine ⟨⟨shadows.stack, shadows.calls, shadows.heap, shadows.code⟩, rfl, shadows.phase, ?_, ?_,
    ?_, shadows.budget⟩
  · exact congrArg (· + 1) shadows.instructions
  · exact congrArg₂ max shadows.maxStackDepth shadows.stack.depth
  · exact congrArg₂ max shadows.maxCallDepth shadows.calls.depth

theorem advance (shadows : m.Shadows m') (i : Instr) (next : Nat) (control : Control) :
    ∃ more n n', Machine.advance i next control m = .ok more n ∧
      Machine.advance i next control m' = .ok more n' ∧ n.Shadows n' := by
  have code : (m'.record i).code = (m.record i).code := shadows.code
  cases control with
  | halt => exact ⟨false, _, _, rfl, rfl, shadows.record i next⟩
  | proceed =>
    refine ⟨decide (next < (m.record i).code.size), _, _, rfl, ?_, shadows.record i next⟩
    rw [← code]
    rfl
  | jump target =>
    refine ⟨decide (target < (m.record i).code.size), _, _, rfl, ?_, shadows.record i target⟩
    rw [← code]
    rfl

theorem cycle (shadows : m.Shadows m') (coherent : m.Coherent) (coherent' : m'.Coherent) :
    (∃ more n n', Machine.cycle m = .ok more n ∧ Machine.cycle m' = .ok more n' ∧
      n.Shadows n') ∨
    ∃ e n, Machine.cycle m = .error e n ∧
      (e.isLimit = true ∨ ∃ n', Machine.cycle m' = .error e n' ∧ n.Shadows n') := by
  cases decoded : m.code.decode m.ip with
  | error e =>
    have decoded' : m'.code.decode m'.ip = .error e := by
      rw [shadows.code, shadows.ip, decoded]
    have failed : Machine.cycle m = .error e m := Action.bind_of_error (fetch_of_error decoded)
    have failed' : Machine.cycle m' = .error e m' := Action.bind_of_error (fetch_of_error decoded')
    exact .inr ⟨e, m, failed, .inr ⟨m', failed', shadows⟩⟩
  | ok pair =>
    obtain ⟨i, next⟩ := pair
    have decoded' : m'.code.decode m'.ip = .ok (i, next) := by
      rw [shadows.code, shadows.ip, decoded]
    have noted := shadows.note (.dispatched m.ip i m.stack.depth)
      (.dispatched m'.ip i m'.stack.depth)
    have echoes := noted.toWidens.effect i next
    have turn := cycle_eq coherent decoded
    have turn' := cycle_eq coherent' decoded'
    -- The effects become variables, so that the cases of their comparison can be told apart.
    generalize result : (m.note (.dispatched m.ip i m.stack.depth)).effect i next = r
      at echoes turn
    generalize result' : (m'.note (.dispatched m'.ip i m'.stack.depth)).effect i next = r'
      at echoes turn'
    cases echoes with
    | limit limited => exact .inr ⟨_, _, turn, .inl limited⟩
    | error e => exact .inr ⟨e, _, turn, .inr ⟨_, turn', noted⟩⟩
    | @ok left right related =>
      obtain ⟨control, after⟩ := left
      obtain ⟨_, after'⟩ := right
      obtain ⟨same, wider⟩ := related
      cases same
      have rest := (effect_advances (m := m.note _) coherent.stack result).rest
      have rest' := (effect_advances (m := m'.note _) coherent'.stack result').rest
      obtain ⟨more, last, last', done, done', shadowed⟩ :=
        (noted.of_effect wider rest rest').advance i next _
      exact .inl ⟨more, last, last', turn.trans done, turn'.trans done', shadowed⟩

theorem exhausted? (shadows : m.Shadows m') (left : m.exhausted? = none) :
    m'.exhausted? = none := by
  cases limit' : m'.config.instructionBudget with
  | none =>
    rw [Machine.exhausted?, limit']
    rfl
  | some budget' =>
    obtain ⟨budget, limit, higher⟩ := shadows.budget budget' limit'
    have instructions := shadows.instructions
    rw [Machine.exhausted?, limit, Option.filter_eq_none_iff] at left
    rw [Machine.exhausted?, limit', Option.filter_eq_none_iff]
    have unused : ¬ budget ≤ m.counters.instructions := by simpa using left budget rfl
    intro b same
    cases same
    simp only [decide_eq_true_eq]
    omega

theorem exhausted?_of_slice {fuel : Nat} (unlimited : (Machine.slice fuel m).1.isLimit = false) :
    m.exhausted? = none := by
  cases exhausted : m.exhausted? with
  | none => rfl
  | some budget =>
    rw [slice_of_exhausted exhausted] at unlimited
    cases unlimited

theorem slice {fuel : Nat} (shadows : m.Shadows m') (coherent : m.Coherent)
    (coherent' : m'.Coherent) (unlimited : (Machine.slice fuel m).1.isLimit = false) :
    (Machine.slice fuel m').1 = (Machine.slice fuel m).1 ∧
      (Machine.slice fuel m).2.Shadows (Machine.slice fuel m').2 := by
  have exhausted := exhausted?_of_slice unlimited
  have exhausted' := shadows.exhausted? exhausted
  induction fuel generalizing m m' with
  | zero =>
    rw [slice_zero exhausted, slice_zero exhausted']
    exact ⟨rfl, shadows⟩
  | succ fuel ih =>
    rcases shadows.cycle coherent coherent' with ⟨more, after, after', turn, turn', further⟩ |
      ⟨e, after, turn, stuck⟩
    · obtain ⟨_, _, completes⟩ := cycle_eq_ok coherent turn
      obtain ⟨_, _, completes'⟩ := cycle_eq_ok coherent' turn'
      cases more with
      | true =>
        rw [slice_next exhausted turn] at unlimited ⊢
        rw [slice_next exhausted' turn']
        have left := exhausted?_of_slice unlimited
        exact ih further (completes.coherent coherent) (completes'.coherent coherent') unlimited
          left (further.exhausted? left)
      | false =>
        simp only [Machine.slice, exhausted, exhausted', turn, turn']
        exact ⟨rfl, (further.moved further.ip (.halted .completed)).note _ _⟩
    · simp only [Machine.slice, exhausted, turn] at unlimited ⊢
      rcases stuck with limited | ⟨after', turn', further⟩
      · have same : (after.fail e m.ip).1.isLimit = e.isLimit := rfl
        rw [same, limited] at unlimited
        cases unlimited
      · simp only [exhausted', turn']
        rw [shadows.ip]
        exact ⟨rfl, (further.moved rfl (.halted (.failed e m.ip))).note _ _⟩

theorem runFor {fuel : Nat} (shadows : m.Shadows m') (coherent : m.Coherent)
    (coherent' : m'.Coherent) (unlimited : (m.runFor fuel).1.isLimit = false) :
    (m'.runFor fuel).1 = (m.runFor fuel).1 ∧ (m.runFor fuel).2.Shadows (m'.runFor fuel).2 := by
  cases phase : m.phase with
  | ready =>
    have phase' : m'.phase = .ready := by rw [shadows.phase, phase]
    have started : m.started.Shadows m'.started := (shadows.moved shadows.ip .running).note _ _
    rw [runFor_ready phase] at unlimited ⊢
    rw [runFor_ready phase']
    exact started.slice coherent coherent' unlimited
  | running =>
    have phase' : m'.phase = .running := by rw [shadows.phase, phase]
    rw [runFor_running phase] at unlimited ⊢
    rw [runFor_running phase']
    exact shadows.slice coherent coherent' unlimited
  | halted finish =>
    have phase' : m'.phase = .halted finish := by rw [shadows.phase, phase]
    simp only [Machine.runFor, phase, phase', shadows.ip]
    exact ⟨trivial, shadows⟩
  | destroyed =>
    have phase' : m'.phase = .destroyed := by rw [shadows.phase, phase]
    simp only [Machine.runFor, phase, phase', shadows.ip]
    exact ⟨trivial, shadows⟩

end Shadows

end Machine

namespace Config

/-- The limits of `c'` are those of `c` or higher; no instruction budget is the highest. -/
structure Raised (c c' : Config) : Prop where
  maxStackDepth : c.maxStackDepth ≤ c'.maxStackDepth
  maxCallDepth : c.maxCallDepth ≤ c'.maxCallDepth
  heapBudget : c.heapBudget ≤ c'.heapBudget
  localsPerFrame : c'.localsPerFrame = c.localsPerFrame
  instructionBudget : ∀ limit', c'.instructionBudget = some limit' →
    ∃ limit, c.instructionBudget = some limit ∧ limit ≤ limit'

theorem Raised.check {c c' : Config} (raised : c.Raised c') (checked : c.check = .ok ()) :
    c'.check = .ok () := by
  rw [check_eq_ok_iff] at checked ⊢
  obtain ⟨maxStackDepth, maxCallDepth, _, localsPerFrame, _⟩ := raised
  omega

end Config

namespace Machine

variable {m : Machine} {journal : Journal} {code : Code} {config config' : Config}

theorem create_shadows (made : create journal code config = .ok m)
    (raised : config.Raised config') (journal' : Journal) :
    ∃ m', create journal' code config' = .ok m' ∧ m.Shadows m' := by
  obtain ⟨nonempty, checked, _, rfl⟩ := ofParts_eq_ok made
  obtain ⟨m', made'⟩ := exists_create (raised.check checked) nonempty journal'
  refine ⟨m', made', ?_⟩
  obtain ⟨_, _, _, rfl⟩ := ofParts_eq_ok made'
  have frames : (CallStack.root config'.maxCallDepth config'.localsPerFrame).frames =
      (CallStack.root config.maxCallDepth config.localsPerFrame).frames := by
    unfold CallStack.root
    rw [raised.localsPerFrame]
  exact ⟨⟨⟨rfl, rfl, raised.maxStackDepth⟩, ⟨frames, raised.localsPerFrame, raised.maxCallDepth⟩,
    ⟨rfl, rfl, rfl, rfl, raised.heapBudget⟩, rfl⟩, rfl, rfl, rfl, rfl, rfl,
    raised.instructionBudget⟩

/-- The machines are in the same state, apart from their limits, their profiles and their
journals. -/
structure Alike (m m' : Machine) : Prop where
  ip : m'.ip = m.ip
  phase : m'.phase = m.phase
  values : m'.stack.values = m.stack.values
  floor : m'.stack.floor = m.stack.floor
  frames : m'.calls.frames = m.calls.frames
  slots : m'.heap.slots = m.heap.slots
  free : m'.heap.free = m.heap.free
  stats : m'.stats =
    { m.stats with counters := { m.counters with profile := m'.counters.profile } }

theorem Shadows.alike {m m' : Machine} (shadows : m.Shadows m') : m.Alike m' := by
  refine ⟨shadows.ip, shadows.phase, shadows.stack.values, shadows.stack.floor,
    shadows.calls.frames, shadows.heap.slots, shadows.heap.free, ?_⟩
  unfold stats
  dsimp only
  rw [← shadows.instructions, ← shadows.maxStackDepth, ← shadows.maxCallDepth,
    shadows.heap.live, shadows.heap.bytesInUse]

/-- A slice of a new machine that does not come up against a limit has the same outcome under higher
limits, and it leaves the machine in the same state. -/
theorem raised_limits_keep_runs (made : create journal code config = .ok m)
    (raised : config.Raised config') (journal' : Journal) :
    ∃ m', create journal' code config' = .ok m' ∧
      ∀ fuel, (m.runFor fuel).1.isLimit = false →
        (m'.runFor fuel).1 = (m.runFor fuel).1 ∧ (m.runFor fuel).2.Alike (m'.runFor fuel).2 := by
  obtain ⟨m', made', shadows⟩ := create_shadows made raised journal'
  refine ⟨m', made', ?_⟩
  intro fuel unlimited
  have coherent := ofParts_coherent (.empty _) made
  have coherent' := ofParts_coherent (.empty _) made'
  obtain ⟨outcome, last⟩ := shadows.runFor coherent coherent' unlimited
  exact ⟨outcome, last.alike⟩

theorem run_at_tight_limits_is_kept :
    ∃ m m',
      create (.empty none) (.encode [.new .record 1, .getField 3])
        { Config.withLimits 1 1 32 with instructionBudget := some 2 } = .ok m ∧
      create (.empty (some .trace)) (.encode [.new .record 1, .getField 3])
        { Config.standard with profileOpcodes := true } = .ok m' ∧
      (m'.runFor 9).1 = .finished (.failed (.fieldOutOfRange 3 1) 5) ∧
      (m.runFor 9).2.Alike (m'.runFor 9).2 := by
  have computed : ∃ m, create (.empty none) (.encode [.new .record 1, .getField 3])
        { Config.withLimits 1 1 32 with instructionBudget := some 2 } = .ok m ∧
      (m.runFor 9).1 = .finished (.failed (.fieldOutOfRange 3 1) 5) :=
    ⟨_, rfl, by decide +kernel⟩
  obtain ⟨m, made, outcome⟩ := computed
  have raised : Config.Raised { Config.withLimits 1 1 32 with instructionBudget := some 2 }
      { Config.standard with profileOpcodes := true } :=
    ⟨by decide, by decide, by decide, rfl, nofun⟩
  obtain ⟨m', made', kept⟩ := raised_limits_keep_runs made raised (.empty (some .trace))
  obtain ⟨same, alike⟩ := kept 9 (by rw [outcome]; rfl)
  exact ⟨m, m', made, made', same.trans outcome, alike⟩

end Machine

end StackMachine
