import StackMachine.Proofs.Run

namespace StackMachine

def Event.isDispatch : Event → Bool
  | .dispatched .. => true
  | _ => false

def Journal.dispatches (j : Journal) : Nat := j.events.countP Event.isDispatch

theorem Journal.dispatches_add_le (j : Journal) (e : Event) :
    (j.add e).dispatches ≤ j.dispatches + 1 := by
  unfold Journal.add
  split
  · rw [Journal.dispatches, Array.countP_push]
    apply Nat.add_le_add_left
    split <;> omega
  · omega

theorem Journal.dispatches_add_of_other {j : Journal} {e : Event} (other : e.isDispatch = false) :
    (j.add e).dispatches = j.dispatches := by
  unfold Journal.add
  split
  · rw [Journal.dispatches, Array.countP_push, other]
    rfl
  · rfl

def Action.mapState {σ α : Type} (f : σ → σ) :
    EStateM.Result Fault σ α → EStateM.Result Fault σ α
  | .ok a s => .ok a (f s)
  | .error e s => .error e (f s)

theorem Action.mapState_bind {σ α β : Type} {x : Action σ α} {rest : α → Action σ β} {f : σ → σ}
    {s : σ} (first : x (f s) = mapState f (x s))
    (second : ∀ a s', x s = .ok a s' → rest a (f s') = mapState f (rest a s')) :
    (x >>= rest) (f s) = mapState f ((x >>= rest) s) := by
  cases result : x s with
  | ok a s' =>
    rw [result] at first
    rw [bind_of_ok first, bind_of_ok result]
    exact second a s' result
  | error e s' =>
    rw [result] at first
    rw [bind_of_error first, bind_of_error result]
    rfl

namespace Machine

variable {m m' : Machine} {α : Type} {action : Action Machine α}

/-- The actions that are built from actions on the parts of a machine and from looks at its thread
and its code. -/
inductive Local : {α : Type} → Action Machine α → Prop where
  | pure {α : Type} (a : α) : Local (Pure.pure a)
  | fault {α : Type} (e : Fault) : Local (throw e : Action Machine α)
  | onStack {α : Type} (action : Action OperandStack α) : Local (onStack action)
  | onCalls {α : Type} (action : Action CallStack α) : Local (onCalls action)
  | onThread {α : Type} (action : Action Thread α) : Local (onThread action)
  | onHeap {α : Type} (action : Action Heap α) : Local (onHeap action)
  | allocated (handle : Handle) (kind : ObjectKind) (size : Nat) :
      Local (report (.allocated handle kind size))
  | freed (handle : Handle) : Local (report (.freed handle))
  | look {α : Type} (rest : Thread → Code → Action Machine α) :
      (∀ thread code, Local (rest thread code)) →
      Local (get >>= fun m => rest m.toThread m.code)
  | bind {α β : Type} {action : Action Machine α} {rest : α → Action Machine β} :
      Local action → (∀ a, Local (rest a)) → Local (action >>= rest)

namespace Local

theorem push (v : Value) : Local (Machine.push v) := .onStack _

theorem peek (n : Nat) : Local (Machine.peek n) := .onStack _

theorem drop : Local Machine.drop := .bind (.onStack _) fun _ => .pure ()

theorem lift (r : Except Fault α) : Local (Action.lift r) := by
  cases r with
  | ok a => exact .pure a
  | error e => exact .fault e

theorem proceed {action : Action Machine Unit} (body : Local action) :
    Local (thenProceed action) := .bind body fun _ => .pure _

theorem copy {action : Action Machine Value} (source : Local action) :
    Local (thenProceed (do Machine.push (← action))) := proceed (.bind source push)

theorem unary (f : Value → Except Fault Value) : Local (thenProceed (Machine.unary f)) := by
  apply proceed
  apply Local.bind (peek 0)
  intro v
  exact .bind (lift (f v)) fun result => .bind drop fun _ => push result

theorem binary (f : Value → Value → Except Fault Value) :
    Local (thenProceed (Machine.binary f)) := by
  apply proceed
  apply Local.bind (peek 0)
  intro b
  apply Local.bind (peek 1)
  intro a
  exact .bind (lift (f a b)) fun result => .bind drop fun _ => .bind drop fun _ => push result

theorem handleOperand (n : Nat) (op : Opcode) : Local (Machine.handleOperand n op) := by
  apply Local.bind (peek n)
  intro v
  cases v with
  | ref h => exact .pure h
  | _ => exact .fault _

theorem indexOperand (n : Nat) (op : Opcode) : Local (Machine.indexOperand n op) := by
  apply Local.bind (peek n)
  intro v
  cases v with
  | int k => exact .pure _
  | _ => exact .fault _

theorem jumpTarget (target : UInt32) : Local (Machine.jumpTarget target) := by
  apply Local.look fun _ code => do
    Action.lift (code.checkOffset target.toNat)
    return target.toNat
  intro _ code
  exact .bind (lift _) fun _ => .pure _

theorem allocate (kind : ObjectKind) (size : Nat) : Local (Machine.allocate kind size) := by
  apply Local.look fun thread _ => do
    if thread.stack.isFull then
      throw (.stackOverflow thread.stack.maxDepth)
    let handle ← Machine.onHeap (Heap.allocate kind size)
    report (.allocated handle kind size)
    Machine.push (.ref handle)
  intro thread _
  have stored : Local (do
      let handle ← Machine.onHeap (Heap.allocate kind size)
      report (.allocated handle kind size)
      Machine.push (.ref handle)) :=
    .bind (.onHeap _) fun handle => .bind (.allocated handle kind size) fun _ => push _
  by_cases full : thread.stack.isFull
  · simp only [full, ↓reduceIte]
    exact .bind (.fault _) fun _ => stored
  · simp only [full]
    exact stored

end Local

theorem exec_local (i : Instr) (next : Nat) : Local (exec i next) := by
  cases i with
  | nop => exact .pure _
  | halt => exact .pure _
  | push n => exact .proceed (.push _)
  | pushLong n => exact .proceed (.push _)
  | pushFloat x => exact .proceed (.push _)
  | pushNull => exact .proceed (.push _)
  | pop => exact .proceed .drop
  | dup => exact .copy (.peek 0)
  | swap =>
    apply Local.proceed
    apply Local.bind (.peek 0)
    intro b
    apply Local.bind (.peek 1)
    intro a
    exact .bind .drop fun _ => .bind .drop fun _ => .bind (.push b) fun _ => .push a
  | pick depth => exact .copy (.peek _)
  | arith op => exact .binary _
  | neg => exact .unary _
  | bitwise op => exact .binary _
  | eq => exact .binary _
  | ne => exact .binary _
  | order op => exact .binary _
  | not => exact .unary _
  | intToFloat => exact .unary _
  | floatToInt => exact .unary _
  | jump target => exact .bind (.jumpTarget target) fun _ => .pure _
  | branch sense target =>
    apply Local.bind (.peek 0)
    intro v
    by_cases taken : v.isTruthy = sense
    · simp only [taken, ↓reduceIte]
      exact .bind (.jumpTarget target) fun _ => .bind .drop fun _ => .pure _
    · simp only [taken, ↓reduceIte]
      exact .bind .drop fun _ => .pure _
  | call target argc =>
    apply Local.bind (.jumpTarget target)
    intro offset
    exact .bind (.onThread _) fun _ => .pure _
  | ret count => exact .bind (.onThread _) fun _ => .pure _
  | load index => exact .copy (.onCalls _)
  | store index =>
    apply Local.proceed
    apply Local.bind (.peek 0)
    intro v
    exact .bind (.onCalls _) fun _ => .drop
  | new kind size => exact .proceed (.allocate kind size.toNat)
  | getField field =>
    apply Local.proceed
    apply Local.bind (.handleOperand 0 .getField)
    intro handle
    exact .bind (.onHeap _) fun v => .bind .drop fun _ => .push v
  | setField field =>
    apply Local.proceed
    apply Local.bind (.peek 0)
    intro v
    apply Local.bind (.handleOperand 1 .setField)
    intro handle
    exact .bind (.onHeap _) fun _ => .bind .drop fun _ => .drop
  | getIndex =>
    apply Local.proceed
    apply Local.bind (.indexOperand 0 .getIndex)
    intro index
    apply Local.bind (.handleOperand 1 .getIndex)
    intro handle
    exact .bind (.onHeap _) fun v => .bind .drop fun _ => .bind .drop fun _ => .push v
  | setIndex =>
    apply Local.proceed
    apply Local.bind (.peek 0)
    intro v
    apply Local.bind (.indexOperand 1 .setIndex)
    intro index
    apply Local.bind (.handleOperand 2 .setIndex)
    intro handle
    exact .bind (.onHeap _) fun _ => .bind .drop fun _ => .bind .drop fun _ => .drop
  | len =>
    apply Local.proceed
    apply Local.bind (.handleOperand 0 .len)
    intro handle
    exact .bind (.onHeap _) fun _ => .bind .drop fun _ => .push _
  | free =>
    apply Local.proceed
    apply Local.bind (.handleOperand 0 .free)
    intro handle
    exact .bind (.onHeap _) fun _ => .bind (.freed handle) fun _ => .drop

def under (config : Config) (ip : Nat) (phase : Phase) (counters : Counters) (m : Machine) :
    Machine :=
  { m with config := config, ip := ip, phase := phase, counters := counters }

theorem Local.under (isLocal : Local action) (config : Config) (ip : Nat) (phase : Phase)
    (counters : Counters) (m : Machine) :
    action (m.under config ip phase counters) =
      Action.mapState (Machine.under config ip phase counters) (action m) := by
  induction isLocal generalizing m with
  | pure a => rfl
  | fault e => rfl
  | onStack action =>
    simp only [Machine.onStack, Machine.under, Action.within]
    cases action m.stack <;> rfl
  | onCalls action =>
    simp only [Machine.onCalls, Machine.under, Action.within]
    cases action m.calls <;> rfl
  | onThread action =>
    simp only [Machine.onThread, Machine.under, Action.within]
    cases action m.toThread <;> rfl
  | onHeap action =>
    simp only [Machine.onHeap, Machine.under, Action.within]
    cases action m.heap <;> rfl
  | allocated handle kind size => rfl
  | freed handle => rfl
  | look rest _ ih => exact ih m.toThread m.code m
  | bind _ _ first second => exact Action.mapState_bind (first m) fun a m' _ => second a m'

theorem Local.kept (isLocal : Local action) (m : Machine) :
    Action.residue (action m) =
      (Action.residue (action m)).under m.config m.ip m.phase m.counters := by
  have same := isLocal.under m.config m.ip m.phase m.counters m
  change action m = _ at same
  cases result : action m with
  | ok a m' =>
    rw [result] at same
    exact (EStateM.Result.ok.inj same).2
  | error e m' =>
    rw [result] at same
    exact (EStateM.Result.error.inj same).2

theorem Local.dispatches (isLocal : Local action) (m : Machine) :
    (Action.residue (action m)).journal.dispatches = m.journal.dispatches := by
  induction isLocal generalizing m with
  | pure a => rfl
  | fault e => rfl
  | onStack action =>
    simp only [Machine.onStack, Action.within]
    cases action m.stack <;> rfl
  | onCalls action =>
    simp only [Machine.onCalls, Action.within]
    cases action m.calls <;> rfl
  | onThread action =>
    simp only [Machine.onThread, Action.within]
    cases action m.toThread <;> rfl
  | onHeap action =>
    simp only [Machine.onHeap, Action.within]
    cases action m.heap <;> rfl
  | allocated handle kind size => exact Journal.dispatches_add_of_other rfl
  | freed handle => exact Journal.dispatches_add_of_other rfl
  | look rest _ ih => exact ih m.toThread m.code m
  | @bind α β action rest _ _ first second =>
    cases result : action m with
    | ok a m' =>
      have before := first m
      rw [result] at before
      rw [Action.bind_of_ok result]
      exact (second a m').trans before
    | error e m' =>
      have before := first m
      rw [result] at before
      rw [Action.bind_of_error result]
      exact before

/-- What is the same after a cycle, whether its instruction is completed or fails. The cycle reports
one instruction at most. -/
structure Keeps (m m' : Machine) : Prop where
  phase : m'.phase = m.phase
  config : m'.config = m.config
  dispatches : m'.journal.dispatches ≤ m.journal.dispatches + 1

theorem Keeps.of_exec {i : Instr} {next : Nat} {e : Event}
    (residue : Action.residue (exec i next (m.note e)) = m') :
    m.Keeps m' ∧ m'.counters = m.counters := by
  have kept := (exec_local i next).kept (m.note e)
  have reported := (exec_local i next).dispatches (m.note e)
  rw [residue] at kept reported
  have phase : m'.phase = m.phase := by rw [kept]; rfl
  have config : m'.config = m.config := by rw [kept]; rfl
  have counters : m'.counters = m.counters := by rw [kept]; rfl
  refine ⟨⟨phase, config, ?_⟩, counters⟩
  rw [reported]
  exact Journal.dispatches_add_le m.journal e

theorem Keeps.of_ok {more : Bool} (done : cycle m = .ok more m') :
    m.Keeps m' ∧ m'.counters.instructions = m.counters.instructions + 1 := by
  cases decoded : m.code.decode m.ip with
  | error e =>
    have same := (Action.bind_of_error (fetch_of_error decoded)).symm.trans done
    cases same
  | ok pair =>
    obtain ⟨i, next⟩ := pair
    rw [cycle_of_decode decoded] at done
    cases executed : exec i next (m.note (.dispatched m.ip i m.stack.depth)) with
    | error e after =>
      rw [Action.bind_of_error executed] at done
      cases done
    | ok control after =>
      rw [Action.bind_of_ok executed] at done
      obtain ⟨keeps, counters⟩ := Keeps.of_exec (congrArg Action.residue executed)
      have counted : (after.record i).counters.instructions = m.counters.instructions + 1 := by
        rw [← counters]
        rfl
      cases control <;> cases done <;>
        exact ⟨⟨keeps.phase, keeps.config, keeps.dispatches⟩, counted⟩

theorem Keeps.of_error {e : Fault} (failed : cycle m = .error e m') :
    m.Keeps m' ∧ m'.counters = m.counters := by
  cases decoded : m.code.decode m.ip with
  | error fault =>
    have same := (Action.bind_of_error (fetch_of_error decoded)).symm.trans failed
    cases same
    exact ⟨⟨rfl, rfl, Nat.le_succ _⟩, rfl⟩
  | ok pair =>
    obtain ⟨i, next⟩ := pair
    rw [cycle_of_decode decoded] at failed
    cases executed : exec i next (m.note (.dispatched m.ip i m.stack.depth)) with
    | error fault after =>
      rw [Action.bind_of_error executed] at failed
      cases failed
      exact Keeps.of_exec (congrArg Action.residue executed)
    | ok control after =>
      rw [Action.bind_of_ok executed] at failed
      cases control <;> cases failed

end Machine

end StackMachine
