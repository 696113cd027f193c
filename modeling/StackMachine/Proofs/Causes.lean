import StackMachine.Proofs.Faults
import StackMachine.Proofs.StackEffect

namespace StackMachine

def Opcode.grows : Opcode → Bool
  | push | pushLong | pushFloat | pushNull | dup | pick | load | newRecord | newBytes => true
  | _ => false

/-- The instruction is about to go to an offset that it names. A branch has to be taken. -/
inductive Instr.Aims (s : OperandStack) : Instr → Nat → Prop where
  | jump (target : UInt32) : Aims s (.jump target) target.toNat
  | call (target : UInt32) (argc : UInt8) : Aims s (.call target argc) target.toNat
  | branch {sense : Bool} {v : Value} (target : UInt32) : s.operand 0 = .ok v →
      v.isTruthy = sense → Aims s (.branch sense target) target.toNat

namespace Fault

/-- The fault has its cause in the instruction and in the state of the machine. -/
def Due (config : Config) (m : Machine) (i : Instr) : Fault → Prop
  | stackOverflow max =>
    i.opcode.grows = true ∧ m.stack.depth = max ∧ max = config.maxStackDepth
  | stackUnderflow => m.stack.available < i.needs
  | frameUnderflow => (∃ count, i = .ret count) ∧ m.calls.depth = 0
  | callDepthExceeded max =>
    (∃ target argc, i = .call target argc) ∧ m.calls.depth = max ∧ max = config.maxCallDepth
  | invalidLocal index window =>
    ((∃ k, (i = .load k ∨ i = .store k) ∧ index = k.toNat) ∨
      ∃ target argc, i = .call target argc ∧ index + 1 = argc.toNat) ∧
    window ≤ index ∧ window = config.localsPerFrame
  | offsetOutOfRange offset size => i.Aims m.stack offset ∧ size ≤ offset ∧ size = m.code.size
  | e => e.OfData

def Malformed : Fault → Prop
  | invalidOpcode _ | truncatedOperand _ _ => True
  | _ => False

/-- The faults in which a run can end that began in a machine that had not halted. -/
def OfRun : Fault → Prop
  | alreadyHalted | destroyed | emptyCode | invalidConfig _ => False
  | e => e.Arises

variable {e : Fault} {config : Config} {m : Machine} {i : Instr}

theorem OfData.due (data : e.OfData) : e.Due config m i := by
  cases e with
  | stackOverflow _ | stackUnderflow | frameUnderflow | callDepthExceeded _ => exact data.elim
  | invalidLocal _ _ | offsetOutOfRange _ _ => exact data.elim
  | _ => exact data

theorem Due.ofRun (due : e.Due config m i) : e.OfRun := by
  cases e with
  | typeMismatch _ _ => exact due
  | alreadyHalted | destroyed | emptyCode | invalidConfig _ => exact due
  | _ => exact trivial

theorem Malformed.ofRun (malformed : e.Malformed) : e.OfRun := by
  cases e with
  | invalidOpcode _ | truncatedOperand _ _ => exact trivial
  | _ => exact malformed.elim

theorem OfRun.arises (raised : e.OfRun) : e.Arises := by
  cases e with
  | typeMismatch _ _ | invalidConfig _ => exact raised
  | _ => exact trivial

end Fault

theorem Code.malformed_or_outside {code : Code} {offset : Nat} {e : Fault}
    (refused : code.decode offset = .error e) :
    e.Malformed ∨ code.size ≤ offset ∧ e = .offsetOutOfRange offset code.size := by
  rcases decode_eq_error_iff.mp refused with outside | ⟨_, _, _, rfl⟩ | ⟨_, _, _, rfl⟩
  · exact .inr outside
  · exact .inl trivial
  · exact .inl trivial

theorem OperandStack.operand_failsOnly {P : Fault → Prop} {n : Nat} {s : OperandStack}
    (due : s.available ≤ n → P .stackUnderflow) : FailsOnly P (s.operand n) := by
  unfold operand
  apply FailsOnly.guard due
  intro above
  obtain ⟨v, found⟩ := exists_operand (s := s) (n := n) (by omega)
  rw [operand_eq_ok found]
  exact .ok v

namespace CallStack

variable {c c' : CallStack} {frame : Frame} {index : Nat} {e : Fault}

theorem getLocal_eq_error (current : c.current? = some frame)
    (failed : getLocal index c = .error e c') :
    frame.window ≤ index ∧ e = .invalidLocal index frame.window := by
  simp only [getLocal, current, Frame.getLocal] at failed
  cases present : frame.locals[index]? with
  | some v =>
    simp only [present] at failed
    cases failed
  | none =>
    simp only [present] at failed
    cases failed
    exact ⟨Array.getElem?_eq_none_iff.mp present, rfl⟩

theorem setLocal_eq_error {v : Value} (current : c.current? = some frame)
    (failed : setLocal index v c = .error e c') :
    frame.window ≤ index ∧ e = .invalidLocal index frame.window := by
  simp only [setLocal, current, Frame.setLocal] at failed
  split at failed
  · cases failed
  · rename_i refused
    cases failed
    split at refused
    · cases refused
    · cases refused
      exact ⟨by omega, rfl⟩

end CallStack

namespace Machine

variable {m m' m₀ : Machine} {i : Instr} {journal : Journal} {code : Code} {config : Config}

theorem Safe.window_current (safe : m.Safe code config) {frame : Frame}
    (current : m.calls.current? = some frame) : frame.window = config.localsPerFrame := by
  rw [CallStack.current?, Array.back?_eq_getElem?] at current
  rw [← safe.window]
  exact (safe.thread.frames _ frame current).window_eq

section

variable {f : Value → Except Fault Value} {g : Value → Value → Except Fault Value} {n : Nat}

theorem Safe.due_overflow (safe : m.Safe code config) (grows : i.opcode.grows = true)
    (full : m.stack.isFull = true) : (Fault.stackOverflow m.stack.maxDepth).Due config m i := by
  have most := safe.thread.stack.depth_le
  have least : m.stack.maxDepth ≤ m.stack.depth := of_decide_eq_true full
  exact ⟨grows, Nat.le_antisymm most least, safe.stackLimit⟩

theorem Safe.pushEffect_failsOnly (safe : m.Safe code config) (grows : i.opcode.grows = true)
    (v : Value) : FailsOnly (Fault.Due config m i) (m.pushEffect v) :=
  .guard (safe.due_overflow grows) fun _ => .ok _

theorem operand_failsOnly (needs : n < i.needs) :
    FailsOnly (Fault.Due config m i) (m.stack.operand n) := by
  apply OperandStack.operand_failsOnly
  intro short
  change m.stack.available < i.needs
  omega

theorem unaryEffect_failsOnly (needs : i.needs = 1) (data : ∀ v, FailsOnly Fault.OfData (f v)) :
    FailsOnly (Fault.Due config m i) (m.unaryEffect f) := by
  apply FailsOnly.bind (operand_failsOnly (by omega))
  intro v _
  exact .bind ((data v).mono fun _ => Fault.OfData.due) fun _ _ => .ok _

theorem binaryEffect_failsOnly (needs : i.needs = 2)
    (data : ∀ a b, FailsOnly Fault.OfData (g a b)) :
    FailsOnly (Fault.Due config m i) (m.binaryEffect g) := by
  apply FailsOnly.bind (operand_failsOnly (by omega))
  intro b _
  apply FailsOnly.bind (operand_failsOnly (by omega))
  intro a _
  exact .bind ((data a b).mono fun _ => Fault.OfData.due) fun _ _ => .ok _

theorem handleAt_failsOnly (op : Opcode) (needs : n < i.needs) :
    FailsOnly (Fault.Due config m i) (m.handleAt n op) := by
  apply FailsOnly.bind (operand_failsOnly needs)
  intro v _
  cases v with
  | ref h => exact .ok h
  | _ => exact .error (Fault.OfData.due (Fault.ofData_mismatch (.instruction op) _))

theorem indexAt_failsOnly (op : Opcode) (needs : n < i.needs) :
    FailsOnly (Fault.Due config m i) (m.indexAt n op) := by
  apply FailsOnly.bind (operand_failsOnly needs)
  intro v _
  cases v with
  | int k => exact .ok _
  | _ => exact .error (Fault.OfData.due (Fault.ofData_mismatch (.instruction op) _))

theorem heapEffect_failsOnly {α : Type} {action : Action Heap α} {rest : α → Machine → Machine}
    (data : ∀ e heap', action m.heap = .error e heap' → e.OfData) :
    FailsOnly (Fault.Due config m i) (m.heapEffect action rest) :=
  .map (.outcome fun e heap' failed => (data e heap' failed).due) _

theorem heapAnswer_failsOnly {α : Type} {action : Action Heap α}
    (data : ∀ e heap', action m.heap = .error e heap' → e.OfData) :
    FailsOnly (Fault.Due config m i) (action.answer m.heap) :=
  .answer fun e heap' failed => (data e heap' failed).due

theorem targetOf_failsOnly {target : UInt32} (aims : i.Aims m.stack target.toNat) :
    FailsOnly (Fault.Due config m i) (m.targetOf target) := by
  have checked : FailsOnly (Fault.Due config m i) (m.code.checkOffset target.toNat) := by
    unfold Code.checkOffset
    split
    · exact .ok ()
    · exact .error ⟨aims, by omega, rfl⟩
  exact checked.bind fun _ _ => .ok _

end

theorem Safe.change_failsOnly (safe : m.Safe code config) (i : Instr) :
    FailsOnly (Fault.Due config m i) (m.change i) := by
  obtain ⟨frame, current⟩ := CallStack.exists_current safe.thread.rooted
  have window := safe.window_current current
  cases i with
  | push n => exact safe.pushEffect_failsOnly rfl _
  | pushLong n => exact safe.pushEffect_failsOnly rfl _
  | pushFloat x => exact safe.pushEffect_failsOnly rfl _
  | pushNull => exact safe.pushEffect_failsOnly rfl _
  | pop => exact .map (operand_failsOnly Nat.zero_lt_one) _
  | dup =>
    exact .bind (operand_failsOnly Nat.zero_lt_one) fun v _ => safe.pushEffect_failsOnly rfl v
  | swap =>
    apply FailsOnly.bind (operand_failsOnly (by decide))
    intro b _
    exact .bind (operand_failsOnly (by decide)) fun _ _ => .ok _
  | pick depth =>
    exact .bind (operand_failsOnly (Nat.lt_succ_self _)) fun v _ => safe.pushEffect_failsOnly rfl v
  | arith op => exact binaryEffect_failsOnly (by cases op <;> rfl) (Value.arith_failsOnly op)
  | neg => exact unaryEffect_failsOnly rfl Value.neg_failsOnly
  | bitwise op => exact binaryEffect_failsOnly (by cases op <;> rfl) (Value.bitwise_failsOnly op)
  | eq => exact binaryEffect_failsOnly rfl fun _ _ => .ok _
  | ne => exact binaryEffect_failsOnly rfl fun _ _ => .ok _
  | order op => exact binaryEffect_failsOnly (by cases op <;> rfl) (Value.order_failsOnly op)
  | not => exact unaryEffect_failsOnly rfl fun _ => .ok _
  | intToFloat => exact unaryEffect_failsOnly rfl Value.intToFloat_failsOnly
  | floatToInt => exact unaryEffect_failsOnly rfl Value.floatToInt_failsOnly
  | load index =>
    apply FailsOnly.bind
    · apply FailsOnly.answer
      intro e _ failed
      obtain ⟨outside, rfl⟩ := CallStack.getLocal_eq_error current failed
      exact ⟨.inl ⟨index, .inl rfl, rfl⟩, outside, window⟩
    · intro v _
      exact safe.pushEffect_failsOnly rfl v
  | store index =>
    apply FailsOnly.bind (operand_failsOnly Nat.zero_lt_one)
    intro v _
    apply FailsOnly.map
    apply FailsOnly.outcome
    intro e _ failed
    obtain ⟨outside, rfl⟩ := CallStack.setLocal_eq_error current failed
    exact ⟨.inl ⟨index, .inr rfl, rfl⟩, outside, window⟩
  | new kind size =>
    have grows : (Instr.new kind size).opcode.grows = true := by cases kind <;> rfl
    exact .guard (safe.due_overflow grows) fun _ =>
      heapEffect_failsOnly fun _ _ => Heap.ofData_allocate
  | getField field =>
    apply FailsOnly.bind (handleAt_failsOnly _ Nat.zero_lt_one)
    intro handle _
    exact .bind (heapAnswer_failsOnly fun _ _ => Heap.ofData_read) fun _ _ => .ok _
  | setField field =>
    apply FailsOnly.bind (operand_failsOnly Nat.zero_lt_two)
    intro v _
    apply FailsOnly.bind (handleAt_failsOnly _ Nat.one_lt_two)
    intro handle _
    exact heapEffect_failsOnly fun _ _ => Heap.ofData_write
  | getIndex =>
    apply FailsOnly.bind (indexAt_failsOnly _ (by decide))
    intro index _
    apply FailsOnly.bind (handleAt_failsOnly _ (by decide))
    intro handle _
    exact .bind (heapAnswer_failsOnly fun _ _ => Heap.ofData_read) fun _ _ => .ok _
  | setIndex =>
    apply FailsOnly.bind (operand_failsOnly (by decide))
    intro v _
    apply FailsOnly.bind (indexAt_failsOnly _ (by decide))
    intro index _
    apply FailsOnly.bind (handleAt_failsOnly _ (by decide))
    intro handle _
    exact heapEffect_failsOnly fun _ _ => Heap.ofData_write
  | len =>
    apply FailsOnly.bind (handleAt_failsOnly _ Nat.zero_lt_one)
    intro handle _
    exact .bind (heapAnswer_failsOnly fun _ _ => Heap.ofData_length) fun _ _ => .ok _
  | free =>
    apply FailsOnly.bind (handleAt_failsOnly _ Nat.zero_lt_one)
    intro handle _
    exact heapEffect_failsOnly fun _ _ => Heap.ofData_release
  | _ => exact .ok m

theorem Safe.checkEnter_failsOnly (safe : m.Safe code config) (target : UInt32) (argc : UInt8) :
    FailsOnly (Fault.Due config m (.call target argc)) (m.checkEnter argc.toNat) := by
  have shallow := safe.thread.calls_le
  apply FailsOnly.guard
  · intro deep
    exact ⟨⟨target, argc, rfl⟩, Nat.le_antisymm shallow deep, safe.callLimit⟩
  · intro _
    apply FailsOnly.guard
    · intro narrow
      exact ⟨.inr ⟨target, argc, rfl, by omega⟩, by omega, safe.window⟩
    · intro _
      exact .guard id fun _ => .ok ()

theorem Safe.checkLeave_failsOnly (safe : m.Safe code config) (count : UInt8) :
    FailsOnly (Fault.Due config m (.ret count)) (m.checkLeave count.toNat) := by
  -- with a root frame there is always a current one, so the last failure cannot happen
  obtain ⟨frame, current⟩ := CallStack.exists_current safe.thread.rooted
  unfold Thread.checkLeave
  apply FailsOnly.guard
  · intro root
    refine ⟨⟨count, rfl⟩, ?_⟩
    unfold CallStack.depth
    omega
  · intro _
    apply FailsOnly.guard
    · exact id
    · intro _
      rw [current]
      exact .ok frame

theorem Safe.effect_failsOnly (safe : m.Safe code config) (i : Instr) (next : Nat) :
    FailsOnly (Fault.Due config m i) (m.effect i next) := by
  cases i with
  | nop => exact .ok _
  | halt => exact .ok _
  | jump target => exact .map (targetOf_failsOnly (.jump target)) _
  | branch sense target =>
    apply FailsOnly.bind (operand_failsOnly (by cases sense <;> exact Nat.zero_lt_one))
    intro v found
    split
    · rename_i taken
      exact .map (targetOf_failsOnly (.branch target found taken)) _
    · exact .ok _
  | call target argc =>
    apply FailsOnly.bind (targetOf_failsOnly (.call target argc))
    intro offset _
    exact (safe.checkEnter_failsOnly target argc).map _
  | ret count => exact (safe.checkLeave_failsOnly count).map _
  | _ => exact (safe.change_failsOnly _).map _

theorem Safe.note (safe : m.Safe code config) (event : Event) :
    (m.note event).Safe code config := { safe with }

theorem Safe.cycle_failed (safe : m.Safe code config) {e : Fault} (failed : cycle m = .error e m') :
    m.code.decode m.ip = .error e ∨
      ∃ i next, m.code.decode m.ip = .ok (i, next) ∧ e.Due config m i := by
  cases decoded : m.code.decode m.ip with
  | error fault =>
    have same := (Action.bind_of_error (fetch_of_error decoded)).symm.trans failed
    cases same
    exact .inl rfl
  | ok pair =>
    -- the event in the journal is no part of a cause
    obtain ⟨i, next⟩ := pair
    rw [cycle_eq safe.thread.toCoherent decoded] at failed
    split at failed
    · rename_i control after _
      cases control <;> cases failed
    · rename_i stuck
      cases failed
      exact .inr ⟨i, next, rfl, (safe.note _).effect_failsOnly i next e stuck⟩

theorem Safe.cycle_ofRun (safe : m.Safe code config) {e : Fault}
    (failed : cycle m = .error e m') : e.OfRun := by
  rcases safe.cycle_failed failed with refused | ⟨_, _, _, due⟩
  · rcases Code.malformed_or_outside refused with malformed | ⟨_, rfl⟩
    · exact malformed.ofRun
    · exact trivial
  · exact due.ofRun

theorem Safe.slice_failed {fuel ip : Nat} {e : Fault} (safe : m.Safe code config)
    (failed : slice fuel m = (.finished (.failed e ip), m')) : e.OfRun ∧ m'.ip = ip := by
  revert safe failed
  apply slice_induction (P := fun m result => m.Safe code config →
    result = (.finished (.failed e ip), m') → e.OfRun ∧ m'.ip = ip)
  · intro m budget _ _ failed
    cases failed
    exact ⟨trivial, rfl⟩
  · intro m _ failed
    cases failed
  · intro m after _ _ failed
    cases failed
  · intro m after fault turn safe failed
    cases failed
    exact ⟨safe.cycle_ofRun turn, rfl⟩
  · intro m after result turn later safe failed
    exact later ((Turn.next turn).safe safe) failed

theorem Safe.runFor_failed {fuel ip : Nat} {e : Fault} (safe : m.Safe code config)
    (live : m.phase = .ready ∨ m.phase = .running)
    (failed : m.runFor fuel = (.finished (.failed e ip), m')) : e.OfRun ∧ m'.ip = ip := by
  rcases live with ready | running
  · rw [runFor_ready ready] at failed
    exact ((Turn.start ready).safe safe).slice_failed failed
  · rw [runFor_running running] at failed
    exact safe.slice_failed failed

theorem runFor_failed {fuel ip : Nat} {e : Fault} (safe : m.Safe code config)
    (failed : m.runFor fuel = (.finished (.failed e ip), m')) : e.Arises ∧ m'.ip = ip := by
  cases phase : m.phase with
  | ready =>
    obtain ⟨raised, stopped⟩ := safe.runFor_failed (.inl phase) failed
    exact ⟨raised.arises, stopped⟩
  | running =>
    obtain ⟨raised, stopped⟩ := safe.runFor_failed (.inr phase) failed
    exact ⟨raised.arises, stopped⟩
  | halted finish =>
    simp only [runFor, phase] at failed
    cases failed
    exact ⟨trivial, rfl⟩
  | destroyed =>
    simp only [runFor, phase] at failed
    cases failed
    exact ⟨trivial, rfl⟩

theorem needs_le_of_effect {frame : Frame} {control : Control} {next : Nat}
    (wf : m.stack.WellFormed) (current : m.calls.current? = some frame)
    (addressable : m.heap.Addressable) (done : m.effect i next = .ok (control, m')) :
    i.needs ≤ m.stack.available := by
  by_cases plain : i.isPlain = true
  · obtain ⟨_, _, _, performs⟩ := effect_performs wf current addressable plain done
    exact performs.needs
  · cases i with
    | call target argc =>
      obtain ⟨_, _, rest⟩ := Action.bind_eq_ok done
      obtain ⟨_, checked, _⟩ := Action.map_eq_ok rest
      exact (Thread.checkEnter_eq_ok checked).2.2
    | ret count =>
      obtain ⟨_, checked, _⟩ := Action.map_eq_ok done
      exact (Thread.checkLeave_eq_ok checked).2.1
    | _ => exact absurd rfl plain

/-- A fault that a machine meets while it runs has its cause in the instruction and in the state of
the machine. An instruction that finds too few values always fails. -/
theorem faults_have_causes (made : create journal code config = .ok m₀) (reached : m₀.Reaches m)
    (live : m.phase = .ready ∨ m.phase = .running) :
    (∀ e m', cycle m = .error e m' →
      m.code.decode m.ip = .error e ∧ e.Malformed ∨
        ∃ i next, m.code.decode m.ip = .ok (i, next) ∧ e.Due config m i) ∧
    (∀ i next, m.code.decode m.ip = .ok (i, next) → m.stack.available < i.needs →
      ∃ e m', cycle m = .error e m') ∧
    (∀ fuel e ip m', m.runFor fuel = (.finished (.failed e ip), m') → e.OfRun) := by
  have safe := reached.safe made
  refine ⟨?_, ?_, ?_⟩
  · intro e m' failed
    rcases safe.cycle_failed failed with refused | due
    · refine .inl ⟨refused, ?_⟩
      have inside := safe.ip_lt live
      rw [← safe.code_eq] at inside
      rcases Code.malformed_or_outside refused with malformed | ⟨outside, _⟩
      · exact malformed
      · omega
    · exact .inr due
  · intro i next decoded short
    cases turn : cycle m with
    | error e m' => exact ⟨e, m', rfl⟩
    | ok more m' =>
      have coherent : m.Coherent := safe.thread.toCoherent
      obtain ⟨frame, current⟩ := CallStack.exists_current safe.thread.rooted
      obtain ⟨_, _, _, _, same, result, _⟩ := effect_of_cycle coherent turn
      cases decoded.symm.trans same
      have addressable := reached.addressable made
      have enough : i.needs ≤ m.stack.available :=
        needs_le_of_effect (m := m.note (.dispatched m.ip i m.stack.depth)) coherent.stack current
          addressable result
      omega
  · intro fuel e ip m' failed
    exact (safe.runFor_failed live failed).1

def hollow : Machine := small [.push 7, .call 11 0, .ret 1]

def atHollowReturn : Machine := (hollow.runFor 2).2

theorem hollow_return_fails_for_its_cause :
    create (.empty none) hollow.code hollow.config = .ok hollow ∧ hollow.Reaches atHollowReturn ∧
    atHollowReturn.phase = .running ∧ atHollowReturn.stack.depth = 1 ∧
    ∃ m', cycle atHollowReturn = .error .stackUnderflow m' ∧
      atHollowReturn.stack.available < (Instr.ret 1).needs := by
  have made : create (.empty none) hollow.code hollow.config = .ok hollow := rfl
  have reached : hollow.Reaches atHollowReturn := .runFor 2 .refl
  have running : atHollowReturn.phase = .running := by decide +kernel
  have decoded : atHollowReturn.code.decode atHollowReturn.ip = .ok (.ret 1, 13) := by cbv
  obtain ⟨causes, fails, _⟩ := faults_have_causes made reached (.inr running)
  obtain ⟨e, m', failed⟩ := fails (.ret 1) 13 decoded (by decide +kernel)
  have fault : Action.fault? (cycle atHollowReturn) = some .stackUnderflow := by decide +kernel
  rw [failed] at fault
  cases fault
  refine ⟨made, reached, running, by decide +kernel, m', failed, ?_⟩
  rcases causes .stackUnderflow m' failed with ⟨_, malformed⟩ | ⟨i, next, same, due⟩
  · exact malformed.elim
  · cases decoded.symm.trans same
    exact due

end Machine

end StackMachine
