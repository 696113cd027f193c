import StackMachine.Proofs.Listing
import StackMachine.Proofs.Atomicity
import StackMachine.Proofs.Slices

namespace StackMachine

def Instr.isStraight : Instr → Bool
  | .jump _ | .branch _ _ | .call _ _ | .ret _ => false
  | _ => true

def upToHalt : List Instr → List Instr
  | [] => []
  | .halt :: _ => [.halt]
  | i :: rest => i :: upToHalt rest

theorem upToHalt_cons {i : Instr} (other : i ≠ .halt) (rest : List Instr) :
    upToHalt (i :: rest) = i :: upToHalt rest := by
  cases i with
  | halt => exact absurd rfl other
  | _ => rfl

theorem Code.size_encode_pos {program : List Instr} (nonempty : program ≠ []) :
    0 < (Code.encode program).size := by
  cases program with
  | nil => exact absurd rfl nonempty
  | cons i rest =>
    rw [Code.size_encode_cons, Instr.encodedLength]
    omega

inductive Action.Agree {σ α : Type} (R : σ → σ → Prop) :
    EStateM.Result Fault σ α → EStateM.Result Fault σ α → Prop where
  | ok {a : α} {s s' : σ} : R s s' → Agree R (.ok a s) (.ok a s')
  | error {e : Fault} {s s' : σ} : R s s' → Agree R (.error e s) (.error e s')

namespace Machine

variable {m m' folded : Machine} {i : Instr} {program : List Instr}

structure SameParts (m m' : Machine) : Prop where
  thread : m'.toThread = m.toThread
  heap : m'.heap = m.heap
  code : m'.code = m.code

theorem Local.agree {α : Type} {action : Action Machine α} (isLocal : Local action)
    (same : m.SameParts m') : Action.Agree SameParts (action m) (action m') := by
  induction isLocal generalizing m m' with
  | pure a => exact .ok same
  | fault e => exact .error same
  | onStack action =>
    have stack : m'.stack = m.stack := by rw [same.thread]
    have calls : m'.calls = m.calls := by rw [same.thread]
    simp only [Machine.onStack, Action.within, stack, calls]
    cases action m.stack with
    | ok a s => exact .ok ⟨rfl, same.heap, same.code⟩
    | error e s => exact .error ⟨rfl, same.heap, same.code⟩
  | onCalls action =>
    have stack : m'.stack = m.stack := by rw [same.thread]
    have calls : m'.calls = m.calls := by rw [same.thread]
    simp only [Machine.onCalls, Action.within, stack, calls]
    cases action m.calls with
    | ok a c => exact .ok ⟨rfl, same.heap, same.code⟩
    | error e c => exact .error ⟨rfl, same.heap, same.code⟩
  | onThread action =>
    simp only [Machine.onThread, Action.within, same.thread]
    cases action m.toThread with
    | ok a t => exact .ok ⟨rfl, same.heap, same.code⟩
    | error e t => exact .error ⟨rfl, same.heap, same.code⟩
  | onHeap action =>
    simp only [Machine.onHeap, Action.within, same.heap]
    cases action m.heap with
    | ok a heap => exact .ok ⟨same.thread, rfl, same.code⟩
    | error e heap => exact .error ⟨same.thread, rfl, same.code⟩
  | allocated handle kind size => exact .ok ⟨same.thread, same.heap, same.code⟩
  | freed handle => exact .ok ⟨same.thread, same.heap, same.code⟩
  | look rest _ ih =>
    have agree := ih m.toThread m.code same
    rw [Action.get_bind, Action.get_bind, same.thread, same.code]
    exact agree
  | @bind α β action rest _ _ first second =>
    have agree := first same
    generalize before : action m = left at agree
    generalize after : action m' = right at agree
    cases agree with
    | @ok a s s' further =>
      rw [Action.bind_of_ok before, Action.bind_of_ok after]
      exact second a further
    | error further =>
      rw [Action.bind_of_error before, Action.bind_of_error after]
      exact .error further

structure Performance where
  completed : List Instr
  fault? : Option Fault
  machine : Machine

/-- Executes instructions in their order, with no code to fetch them from: up to a halt, to one that
fails or to the last. -/
def perform : List Instr → Machine → Performance
  | [], m => ⟨[], none, m⟩
  | i :: rest, m =>
    -- Only a call uses the offset behind it.
    match exec i 0 m with
    | .error e _ => ⟨[], some e, m⟩
    | .ok .halt m' => ⟨[i], none, m'⟩
    | .ok _ m' =>
      let after := perform rest m'
      { after with completed := i :: after.completed }

def Performance.finish (p : Performance) (ip : Nat) : Finish :=
  match p.fault? with
  | some e => .failed e ip
  | none => .completed

theorem perform_of_error {e : Fault} (failed : exec i 0 m = .error e m') (rest : List Instr) :
    m.perform (i :: rest) = ⟨[], some e, m⟩ := by
  simp only [perform, failed]

theorem perform_of_halt (done : exec i 0 m = .ok .halt m') (rest : List Instr) :
    m.perform (i :: rest) = ⟨[i], none, m'⟩ := by
  simp only [perform, done]

theorem perform_of_proceed (done : exec i 0 m = .ok .proceed m') (rest : List Instr) :
    m.perform (i :: rest) =
      { m'.perform rest with completed := i :: (m'.perform rest).completed } := by
  simp only [perform, done]

theorem exec_straight (straight : i.isStraight = true) (next : Nat) : exec i next = exec i 0 := by
  cases i with
  | call target argc => cases straight
  | _ => rfl

theorem thenProceed_eq_ok {action : Action Machine Unit} {control : Control}
    (done : thenProceed action m = .ok control m') : control = .proceed := by
  unfold thenProceed at done
  cases result : action m with
  | ok a after =>
    rw [Action.bind_of_ok result] at done
    cases done
    rfl
  | error e after =>
    rw [Action.bind_of_error result] at done
    cases done

theorem control_of_straight (straight : i.isStraight = true) {next : Nat} {control : Control}
    (done : exec i next m = .ok control m') :
    control = .halt ∧ i = .halt ∨ control = .proceed ∧ i ≠ .halt := by
  cases i with
  | nop =>
    cases done
    exact .inr ⟨rfl, nofun⟩
  | halt =>
    cases done
    exact .inl ⟨rfl, rfl⟩
  | jump _ | branch _ _ | call _ _ | ret _ => cases straight
  | _ => exact .inr ⟨thenProceed_eq_ok done, nofun⟩

/-- The completed instructions are the first ones, with no halt before the last. Behind them stands
the instruction that failed, or nothing is left to be executed. -/
theorem perform_completed (straight : ∀ i ∈ program, i.isStraight = true) (m : Machine) :
    match (m.perform program).fault? with
    | some e => .halt ∉ (m.perform program).completed ∧ ∃ i rest after,
        program = (m.perform program).completed ++ i :: rest ∧
          exec i 0 (m.perform program).machine = .error e after
    | none => (m.perform program).completed = upToHalt program := by
  induction program generalizing m with
  | nil => rfl
  | cons i rest ih =>
    have first := straight i (List.mem_cons_self ..)
    have others : ∀ j ∈ rest, j.isStraight = true :=
      fun j member => straight j (List.mem_cons_of_mem i member)
    cases executed : exec i 0 m with
    | error e after =>
      rw [perform_of_error executed]
      exact ⟨List.not_mem_nil, i, rest, after, rfl, executed⟩
    | ok control after =>
      rcases control_of_straight first executed with ⟨rfl, rfl⟩ | ⟨rfl, other⟩
      · rw [perform_of_halt executed]
        rfl
      · have later := ih others after
        rw [perform_of_proceed executed, upToHalt_cons other]
        dsimp only
        cases result : (after.perform rest).fault? with
        | none =>
          rw [result] at later
          exact congrArg (i :: ·) later
        | some e =>
          rw [result] at later
          obtain ⟨noHalt, j, tail, stuck, split, failed⟩ := later
          refine ⟨?_, j, tail, stuck, congrArg (i :: ·) split, failed⟩
          intro member
          rcases List.mem_cons.mp member with same | member
          · exact other same.symm
          · exact noHalt member

theorem cycle_straight (straight : i.isStraight = true)
    (decoded : m.code.decode m.ip = .ok (i, m.ip + i.encodedLength)) (same : folded.SameParts m) :
    (∃ e stuck after, exec i 0 folded = .error e stuck ∧ cycle m = .error e after) ∨
    ∃ folded' after, folded'.SameParts after ∧ after.ip = m.ip + i.encodedLength ∧
      (exec i 0 folded = .ok .halt folded' ∧ cycle m = .ok false after ∨
        exec i 0 folded = .ok .proceed folded' ∧
          cycle m = .ok (decide (after.ip < after.code.size)) after) := by
  have noted : folded.SameParts (m.note (.dispatched m.ip i m.stack.depth)) :=
    ⟨same.thread, same.heap, same.code⟩
  have agree := (exec_local i 0).agree noted
  have cycled := cycle_of_decode decoded
  rw [exec_straight straight] at cycled
  generalize result : exec i 0 folded = left at agree
  generalize executed : exec i 0 (m.note (.dispatched m.ip i m.stack.depth)) = right at agree
  cases agree with
  | error further =>
    rw [Action.bind_of_error executed] at cycled
    exact .inl ⟨_, _, _, rfl, cycled⟩
  | @ok control folded' after further =>
    rw [Action.bind_of_ok executed] at cycled
    have kept : folded'.SameParts { after.record i with ip := m.ip + i.encodedLength } :=
      ⟨further.thread, further.heap, further.code⟩
    rcases control_of_straight straight executed with ⟨rfl, _⟩ | ⟨rfl, _⟩
    · exact .inr ⟨folded', _, kept, rfl, .inl ⟨rfl, cycled⟩⟩
    · exact .inr ⟨folded', _, kept, rfl, .inr ⟨rfl, cycled⟩⟩

/-- The end of a run, compared with the execution of what is left of the program from `folded`. -/
structure Follows (folded : Machine) (program : List Instr) (m : Machine) (finish : Finish)
    (last : Machine) : Prop where
  parts : (folded.perform program).machine.SameParts last
  ip : last.ip = m.ip + ((folded.perform program).completed.map Instr.encodedLength).sum
  instructions : last.counters.instructions =
    m.counters.instructions + (folded.perform program).completed.length
  finish_eq : finish = (folded.perform program).finish last.ip

theorem Follows.of_error {e : Fault} {stuck : Machine} (failed : exec i 0 folded = .error e stuck)
    (same : folded.SameParts m) (rest : List Instr) (journal : Journal) :
    folded.Follows (i :: rest) m (.failed e m.ip) { m.haltedBy e with journal := journal } := by
  have performed := perform_of_error failed rest
  constructor
  · rw [performed]
    exact ⟨same.thread, same.heap, same.code⟩
  · rw [performed]
    rfl
  · rw [performed]
    rfl
  · rw [performed]
    rfl

theorem Follows.of_last {folded' after : Machine} {rest : List Instr}
    (performed : folded.perform (i :: rest) = ⟨[i], none, folded'⟩)
    (same : folded'.SameParts after) (ip : after.ip = m.ip + i.encodedLength)
    (counted : after.counters.instructions = m.counters.instructions + 1) :
    folded.Follows (i :: rest) m .completed after.complete.2 := by
  constructor
  · rw [performed]
    exact ⟨same.thread, same.heap, same.code⟩
  · rw [performed, List.map_singleton, List.sum_singleton]
    exact ip
  · rw [performed]
    exact counted
  · rw [performed]
    rfl

theorem Follows.cons {folded' after last : Machine} {rest : List Instr} {finish : Finish}
    (done : exec i 0 folded = .ok .proceed folded') (ip : after.ip = m.ip + i.encodedLength)
    (counted : after.counters.instructions = m.counters.instructions + 1)
    (later : folded'.Follows rest after finish last) :
    folded.Follows (i :: rest) m finish last := by
  have performed := perform_of_proceed done rest
  constructor
  · rw [performed]
    exact later.parts
  · rw [performed, later.ip, ip]
    simp [Nat.add_assoc]
  · rw [performed, later.instructions, counted, List.length_cons]
    omega
  · rw [performed]
    exact later.finish_eq

/-- As much fuel as there are instructions is enough for a straight program. -/
theorem slice_follows {before : List UInt8}
    (whole : m.code.toList = before ++ (Code.encode program).toList) (ip : m.ip = before.length)
    (nonempty : program ≠ []) (straight : ∀ i ∈ program, i.isStraight = true)
    (coherent : m.Coherent) (unlimited : m.config.instructionBudget = none)
    (same : folded.SameParts m) :
    ∃ finish last, slice program.length m = (.finished finish, last) ∧
      folded.Follows program m finish last := by
  induction program generalizing m folded before with
  | nil => exact absurd rfl nonempty
  | cons i rest ih =>
    have free : m.exhausted? = none := by
      rw [exhausted?, unlimited]
      rfl
    have size : m.code.size = before.length + (Code.encode (i :: rest)).size :=
      (congrArg List.length whole).trans List.length_append
    rw [Code.size_encode_cons, ← Nat.add_assoc, ← ip] at size
    rw [Code.toList_encode_cons] at whole
    have decoded : m.code.decode m.ip = .ok (i, m.ip + i.encodedLength) := by
      rw [ip]
      exact Code.decode_of_append whole
    rcases cycle_straight (straight i (List.mem_cons_self ..)) decoded same with
      ⟨e, stuck, after, failed, turn⟩ | ⟨folded', after, kept, landed, halts | proceeds⟩
    · obtain ⟨journal, result⟩ := fail_of_cycle coherent turn
      refine ⟨_, _, ?_, .of_error failed same rest journal⟩
      simp only [List.length_cons, slice, free, turn, result]
    · obtain ⟨done, turn⟩ := halts
      refine ⟨.completed, _, ?_, .of_last (perform_of_halt done rest) kept landed
        (Keeps.of_ok turn).2⟩
      simp only [List.length_cons, slice, free, turn]
      rfl
    · obtain ⟨done, turn⟩ := proceeds
      obtain ⟨keeps, counted⟩ := Keeps.of_ok turn
      obtain ⟨_, _, completes⟩ := cycle_eq_ok coherent turn
      rw [completes.code] at turn
      cases rest with
      | nil =>
        have ended : ¬ after.ip < m.code.size := by
          rw [size, landed]
          exact Nat.lt_irrefl _
        rw [decide_eq_false ended] at turn
        refine ⟨.completed, _, ?_, .of_last (perform_of_proceed done []) kept landed counted⟩
        simp only [List.length_cons, slice, free, turn]
        rfl
      | cons j others =>
        have further : after.ip < m.code.size := by
          have left := Code.size_encode_pos (List.cons_ne_nil j others)
          omega
        rw [decide_eq_true further] at turn
        have behind : after.code.toList =
            (before ++ i.encode) ++ (Code.encode (j :: others)).toList := by
          rw [completes.code, whole, List.append_assoc]
        have offset : after.ip = (before ++ i.encode).length := by
          rw [landed, ip, List.length_append, i.length_encode]
        obtain ⟨finish, last, sliced, later⟩ := ih behind offset (List.cons_ne_nil j others)
          (fun k member => straight k (List.mem_cons_of_mem i member))
          (completes.coherent coherent) (by rw [keeps.config, unlimited]) kept
        refine ⟨finish, last, ?_, .cons done landed counted later⟩
        rw [← sliced]
        exact slice_next free turn _

/-- The run of a straight program on a new machine ends. It leaves the stack, the frames and the
heap that come of executing the instructions one after the other, up to a halt or to the first that
fails. The instruction pointer and the counter tell how many were completed. -/
theorem straight_program_runs_in_order {config : Config} (journal : Journal)
    (checked : config.check = .ok ()) (unlimited : config.instructionBudget = none)
    (nonempty : program ≠ []) (straight : ∀ i ∈ program, i.isStraight = true) :
    ∃ m last finish, create journal (.encode program) config = .ok m ∧
      m.RunsTo finish last ∧ m.run = (.finished finish, last) ∧
      let performance := m.perform program
      let ip := (performance.completed.map Instr.encodedLength).sum
      last.stack = performance.machine.stack ∧ last.calls = performance.machine.calls ∧
      last.heap = performance.machine.heap ∧ last.ip = ip ∧
      last.counters.instructions = performance.completed.length ∧
      match performance.fault? with
      | some e => finish = .failed e ip ∧ .halt ∉ performance.completed ∧ ∃ i rest after,
          program = performance.completed ++ i :: rest ∧
            exec i 0 performance.machine = .error e after
      | none => finish = .completed ∧ performance.completed = upToHalt program := by
  obtain ⟨m, made⟩ := exists_create checked (Code.size_encode_pos nonempty) journal
  have coherent := ofParts_coherent (.empty _) made
  obtain ⟨_, _, _, fresh⟩ := ofParts_eq_ok made
  have ready : m.phase = .ready := by rw [fresh]
  have limit : m.started.config.instructionBudget = none := by
    rw [fresh]
    exact unlimited
  have whole : m.started.code.toList = [] ++ (Code.encode program).toList := by
    rw [fresh]
    rfl
  have start : m.started.ip = ([] : List UInt8).length := by
    rw [fresh]
    rfl
  have zero : m.started.counters.instructions = 0 := by
    rw [fresh]
    rfl
  have parts : m.SameParts m.started := ⟨rfl, rfl, rfl⟩
  obtain ⟨finish, last, sliced, follows⟩ :=
    slice_follows whole start nonempty straight coherent limit parts
  rw [← runFor_ready ready] at sliced
  have ip := follows.ip
  have instructions := follows.instructions
  rw [start, List.length_nil, Nat.zero_add] at ip
  rw [zero, Nat.zero_add] at instructions
  refine ⟨m, last, finish, made, ⟨_, sliced⟩, run_of_runFor sliced, ?_, ?_, follows.parts.heap, ip,
    instructions, ?_⟩
  · rw [follows.parts.thread]
  · rw [follows.parts.thread]
  · have completed := perform_completed straight m
    have ended := follows.finish_eq
    rw [ip] at ended
    unfold Performance.finish at ended
    cases fault : (m.perform program).fault? with
    | some e =>
      rw [fault] at completed ended
      exact ⟨ended, completed⟩
    | none =>
      rw [fault] at completed ended
      exact ⟨ended, completed⟩

def division : List Instr := [.push 1, .push 0, .arith .div, .halt]

theorem division_runs_in_order :
    ∃ m last, create (.empty none) (.encode division) .standard = .ok m ∧
      m.run = (.finished (.failed .divisionByZero 10), last) ∧
      last.stack.values = #[.int 1, .int 0] ∧ last.counters.instructions = 2 := by
  have computed : ∃ m, create (.empty none) (.encode division) .standard = .ok m ∧
      (m.perform division).fault? = some .divisionByZero ∧
      (m.perform division).completed = [.push 1, .push 0] ∧
      (m.perform division).machine.stack.values = #[.int 1, .int 0] :=
    ⟨_, rfl, by decide +kernel, by decide +kernel, by decide +kernel⟩
  obtain ⟨m, made, fault, completed, values⟩ := computed
  obtain ⟨m', last, finish, made', _, ran, stack, _, _, _, instructions, ended⟩ :=
    straight_program_runs_in_order (.empty none) (rfl : Config.standard.check = .ok ()) rfl
      (by decide : division ≠ []) (by decide)
  have same : m' = m := Except.ok.inj (made'.symm.trans made)
  subst same
  rw [fault, completed] at ended
  rw [completed] at instructions
  refine ⟨m', last, made, ?_, by rw [stack, values], instructions⟩
  rw [ran, ended.1]
  rfl

end Machine

end StackMachine
