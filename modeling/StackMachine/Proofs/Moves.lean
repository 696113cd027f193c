import StackMachine.Proofs.Effect

namespace StackMachine

namespace Thread

def assigned (frame : Frame) (index : Nat) (v : Value) (t : Thread) : Thread where
  stack := t.stack.replaceTop 1 #[]
  calls :=
    { t.calls with
      frames := t.calls.frames.pop.push
        { frame with locals := frame.locals.setIfInBounds index v } }

/-- The ways in which an instruction with the offset `next` behind it can move a thread. -/
inductive Moves (next : Nat) : Instr → Thread → Thread → Prop where
  | replace {i : Instr} {t : Thread} {k : Nat} {out : Array Value} :
      k ≤ t.stack.available → t.stack.depth - k + out.size ≤ t.stack.maxDepth →
      Moves next i t { t with stack := t.stack.replaceTop k out }
  | assign {t : Thread} {frame : Frame} {index : UInt8} {v : Value} :
      t.calls.current? = some frame → 0 < t.stack.available →
      Moves next (.store index) t (t.assigned frame index.toNat v)
  | enter {t : Thread} {target : UInt32} {argc : UInt8} :
      t.checkEnter argc.toNat = .ok () →
      Moves next (.call target argc) t (t.entered next argc.toNat)
  | leave {t : Thread} {frame : Frame} {count : UInt8} :
      t.checkLeave count.toNat = .ok frame →
      Moves next (.ret count) t (t.departed frame count.toNat)

theorem Coherent.replace {t : Thread} (coherent : t.Coherent) {k : Nat} {out : Array Value}
    (above : k ≤ t.stack.available) (room : t.stack.depth - k + out.size ≤ t.stack.maxDepth) :
    { t with stack := t.stack.replaceTop k out : Thread }.Coherent :=
  ⟨coherent.stack.replaceTop above room, coherent.rooted, coherent.ascending, coherent.base_le⟩

theorem Coherent.assigned {t : Thread} (coherent : t.Coherent) {frame : Frame} {index : Nat}
    {v : Value} (current : t.calls.current? = some frame) (above : 0 < t.stack.available) :
    (t.assigned frame index v).Coherent := by
  have limit := coherent.stack.depth_le
  have ascending := coherent.ascending
  have base := coherent.base_le
  rw [CallStack.frames_of_current current, Array.toList_push, List.pairwise_append] at ascending
  rw [CallStack.base_of_current current] at base
  refine ⟨coherent.stack.replaceTop above (by simp; omega), ?_, ?_, ?_⟩
  · simp [Thread.assigned]
  · simp only [Thread.assigned, Array.toList_push, List.pairwise_append]
    refine ⟨ascending.1, List.pairwise_singleton _ _, ?_⟩
    intro older member newest same
    rw [List.mem_singleton.mp same]
    exact ascending.2.2 older member frame (List.mem_singleton_self frame)
  · simpa [Thread.assigned, CallStack.base, CallStack.current?] using base

theorem Coherent.entered {t : Thread} (coherent : t.Coherent) {returnIp argc : Nat}
    (above : argc ≤ t.stack.available) : (t.entered returnIp argc).Coherent := by
  have floor := coherent.stack.floor_le
  have limit := coherent.stack.depth_le
  have base := coherent.base_le
  unfold OperandStack.available at above
  refine ⟨⟨?_, ?_⟩, ?_, ?_, ?_⟩
  · simp [Thread.entered, OperandStack.replaceTop, OperandStack.depth]
  · simp only [Thread.entered, OperandStack.replaceTop, OperandStack.depth, Array.append_empty,
      Array.size_extract] at limit ⊢
    omega
  · simp [Thread.entered]
  · simp only [Thread.entered, Array.toList_push, List.pairwise_append]
    refine ⟨coherent.ascending, List.pairwise_singleton _ _, ?_⟩
    intro older member newest same
    have below := CallStack.base_le_current coherent.ascending older member
    rw [List.mem_singleton.mp same]
    simp only [newFrame]
    omega
  · simp [Thread.entered, CallStack.base, CallStack.current?, newFrame]

theorem Coherent.departed {t : Thread} (coherent : t.Coherent) {frame : Frame} {count : Nat}
    (checked : t.checkLeave count = .ok frame) : (t.departed frame count).Coherent := by
  obtain ⟨nested, above, current⟩ := checkLeave_eq_ok checked
  have floor := coherent.stack.floor_le
  have limit := coherent.stack.depth_le
  have base := coherent.base_le
  have caller := CallStack.base_popped_le coherent.ascending current
  have ascending := coherent.ascending
  rw [CallStack.base_of_current current] at base
  rw [CallStack.frames_of_current current, Array.toList_push, List.pairwise_append] at ascending
  have kept : frame.base + count ≤ t.stack.depth := by
    unfold OperandStack.available at above
    omega
  have depth := OperandStack.depth_collapsed kept
  refine ⟨⟨?_, ?_⟩, ?_, ascending.1, Nat.le_refl _⟩
  · change t.calls.popped.base ≤ (t.stack.collapsed frame.base count).depth
    omega
  · change (t.stack.collapsed frame.base count).depth ≤ t.stack.maxDepth
    omega
  · simp only [Thread.departed, CallStack.popped, Array.size_pop]
    omega

theorem Moves.coherent {next : Nat} {i : Instr} {t t' : Thread} (moves : Moves next i t t')
    (coherent : t.Coherent) : t'.Coherent := by
  cases moves with
  | replace above room => exact coherent.replace above room
  | assign current above => exact coherent.assigned current above
  | enter checked => exact coherent.entered (checkEnter_eq_ok checked).2.2
  | leave checked => exact coherent.departed checked

end Thread

namespace Machine

def Replaces (m m' : Machine) : Prop :=
  ∃ k out, k ≤ m.stack.available ∧ m.stack.depth - k + out.size ≤ m.stack.maxDepth ∧
    m' = { m with
      stack := m.stack.replaceTop k out, heap := m'.heap, journal := m'.journal }

variable {m m' : Machine}

theorem Replaces.of_consumed (wf : m.stack.WellFormed) {k : Nat} {out : Array Value}
    (above : k ≤ m.stack.available) (size : out.size ≤ k) (heap : Heap) (journal : Journal) :
    m.Replaces { m with
      stack := m.stack.replaceTop k out, heap := heap, journal := journal } := by
  have limit := wf.depth_le
  have floor := wf.floor_le
  refine ⟨k, out, above, ?_, rfl⟩
  unfold OperandStack.available at above
  omega

theorem Replaces.refl (wf : m.stack.WellFormed) : m.Replaces m := by
  have same : m.stack.replaceTop 0 #[] = m.stack := by
    simp [OperandStack.replaceTop, OperandStack.depth]
  have none : (#[] : Array Value).size ≤ 0 := Nat.le_refl 0
  have unchanged := Replaces.of_consumed wf (Nat.zero_le _) none m.heap m.journal
  rw [same] at unchanged
  exact unchanged

theorem pushEffect_replaces {v : Value} (done : m.pushEffect v = .ok m') : m.Replaces m' := by
  unfold pushEffect at done
  split at done
  · cases done
  · rename_i notFull
    cases done
    simp only [OperandStack.isFull, decide_eq_true_eq] at notFull
    refine ⟨0, #[v], Nat.zero_le _, ?_, rfl⟩
    rw [List.size_toArray, List.length_singleton]
    omega

theorem unaryEffect_replaces (wf : m.stack.WellFormed) {f : Value → Except Fault Value}
    (done : m.unaryEffect f = .ok m') : m.Replaces m' := by
  obtain ⟨v, found, rest⟩ := Action.bind_eq_ok done
  obtain ⟨result, _, last⟩ := Action.bind_eq_ok rest
  cases last
  exact .of_consumed wf (OperandStack.lt_available_of_operand found) (by simp) _ _

theorem binaryEffect_replaces (wf : m.stack.WellFormed)
    {f : Value → Value → Except Fault Value} (done : m.binaryEffect f = .ok m') :
    m.Replaces m' := by
  obtain ⟨b, _, rest⟩ := Action.bind_eq_ok done
  obtain ⟨a, found, rest⟩ := Action.bind_eq_ok rest
  obtain ⟨result, _, last⟩ := Action.bind_eq_ok rest
  cases last
  exact .of_consumed wf (OperandStack.lt_available_of_operand found) (by simp) _ _

theorem heapEffect_eq_ok {α : Type} {action : Action Heap α} {rest : α → Machine → Machine}
    (done : m.heapEffect action rest = .ok m') :
    ∃ a heap, action m.heap = .ok a heap ∧ m' = rest a { m with heap := heap } := by
  obtain ⟨pair, finished, last⟩ := Action.map_eq_ok done
  exact ⟨pair.1, pair.2, Action.outcome_eq_ok finished, last.symm⟩

theorem allocateEffect_replaces {kind : ObjectKind} {size : Nat}
    (done : m.allocateEffect kind size = .ok m') : m.Replaces m' := by
  unfold allocateEffect at done
  split at done
  · cases done
  · rename_i notFull
    obtain ⟨handle, heap, _, last⟩ := heapEffect_eq_ok done
    subst last
    simp only [OperandStack.isFull, decide_eq_true_eq] at notFull
    refine ⟨0, #[.ref handle], Nat.zero_le _, ?_, rfl⟩
    rw [List.size_toArray, List.length_singleton]
    omega

theorem change_replaces (wf : m.stack.WellFormed) {i : Instr}
    (notStore : ∀ index, i ≠ .store index) (done : m.change i = .ok m') : m.Replaces m' := by
  cases i with
  | push n => exact pushEffect_replaces done
  | pushLong n => exact pushEffect_replaces done
  | pushFloat x => exact pushEffect_replaces done
  | pushNull => exact pushEffect_replaces done
  | pop =>
    obtain ⟨v, found, last⟩ := Action.map_eq_ok done
    cases last
    exact .of_consumed wf (OperandStack.lt_available_of_operand found) (by simp) _ _
  | dup =>
    obtain ⟨v, _, last⟩ := Action.bind_eq_ok done
    exact pushEffect_replaces last
  | swap =>
    obtain ⟨b, _, rest⟩ := Action.bind_eq_ok done
    obtain ⟨a, found, last⟩ := Action.bind_eq_ok rest
    cases last
    exact .of_consumed wf (OperandStack.lt_available_of_operand found) (by simp) _ _
  | pick depth =>
    obtain ⟨v, _, last⟩ := Action.bind_eq_ok done
    exact pushEffect_replaces last
  | arith op => exact binaryEffect_replaces wf done
  | neg => exact unaryEffect_replaces wf done
  | bitwise op => exact binaryEffect_replaces wf done
  | eq => exact binaryEffect_replaces wf done
  | ne => exact binaryEffect_replaces wf done
  | order op => exact binaryEffect_replaces wf done
  | not => exact unaryEffect_replaces wf done
  | intToFloat => exact unaryEffect_replaces wf done
  | floatToInt => exact unaryEffect_replaces wf done
  | load index =>
    obtain ⟨v, _, last⟩ := Action.bind_eq_ok done
    exact pushEffect_replaces last
  | store index => exact absurd rfl (notStore index)
  | new kind size => exact allocateEffect_replaces done
  | getField field =>
    obtain ⟨handle, found, rest⟩ := Action.bind_eq_ok done
    obtain ⟨v, _, last⟩ := Action.bind_eq_ok rest
    cases last
    exact .of_consumed wf (lt_available_of_handleAt found) (by simp) _ _
  | setField field =>
    obtain ⟨v, _, rest⟩ := Action.bind_eq_ok done
    obtain ⟨handle, found, rest⟩ := Action.bind_eq_ok rest
    obtain ⟨_, heap, _, last⟩ := heapEffect_eq_ok rest
    subst last
    exact .of_consumed wf (lt_available_of_handleAt found) (by simp) _ _
  | getIndex =>
    obtain ⟨index, _, rest⟩ := Action.bind_eq_ok done
    obtain ⟨handle, found, rest⟩ := Action.bind_eq_ok rest
    obtain ⟨v, _, last⟩ := Action.bind_eq_ok rest
    cases last
    exact .of_consumed wf (lt_available_of_handleAt found) (by simp) _ _
  | setIndex =>
    obtain ⟨v, _, rest⟩ := Action.bind_eq_ok done
    obtain ⟨index, _, rest⟩ := Action.bind_eq_ok rest
    obtain ⟨handle, found, rest⟩ := Action.bind_eq_ok rest
    obtain ⟨_, heap, _, last⟩ := heapEffect_eq_ok rest
    subst last
    exact .of_consumed wf (lt_available_of_handleAt found) (by simp) _ _
  | len =>
    obtain ⟨handle, found, rest⟩ := Action.bind_eq_ok done
    obtain ⟨length, _, last⟩ := Action.bind_eq_ok rest
    cases last
    exact .of_consumed wf (lt_available_of_handleAt found) (by simp) _ _
  | free =>
    obtain ⟨handle, found, rest⟩ := Action.bind_eq_ok done
    obtain ⟨_, heap, _, last⟩ := heapEffect_eq_ok rest
    subst last
    exact .of_consumed wf (lt_available_of_handleAt found) (by simp) _ _
  | _ =>
    cases done
    exact .refl wf

theorem change_store {index : UInt8} (done : m.change (.store index) = .ok m') :
    ∃ frame v, m.calls.current? = some frame ∧ m.stack.operand 0 = .ok v ∧
      index.toNat < frame.window ∧
      m' = { m with toThread := m.assigned frame index.toNat v } := by
  obtain ⟨v, found, rest⟩ := Action.bind_eq_ok done
  obtain ⟨pair, stored, last⟩ := Action.map_eq_ok rest
  subst last
  simp only [Action.outcome, CallStack.setLocal] at stored
  cases current : m.calls.current? with
  | none => simp only [current] at stored; cases stored
  | some frame =>
    simp only [current, Frame.setLocal] at stored
    by_cases inside : index.toNat < frame.window
    · simp only [inside, ↓reduceIte] at stored
      cases stored
      exact ⟨frame, v, rfl, found, inside, rfl⟩
    · simp only [inside, ↓reduceIte] at stored
      cases stored

theorem targetOf_lt {target : UInt32} {offset : Nat} (found : m.targetOf target = .ok offset) :
    offset < m.code.size := by
  obtain ⟨_, checked, last⟩ := Action.bind_eq_ok found
  cases last
  unfold Code.checkOffset at checked
  split at checked
  · assumption
  · cases checked

/-- What the completion of an instruction means for the machine: its thread moves, and a jump goes
to a byte of the code or back to a caller. -/
structure Advances (i : Instr) (next : Nat) (m : Machine) (c : Control) (m' : Machine) :
    Prop where
  thread : Thread.Moves next i m.toThread m'.toThread
  rest : m' = { m with toThread := m'.toThread, heap := m'.heap, journal := m'.journal }
  target : ∀ target, c = .jump target → target < m.code.size ∨
    ∃ frame, m.calls.current? = some frame ∧ 1 < m.calls.frames.size ∧ target = frame.returnIp

theorem Advances.of_replaces {i : Instr} {next : Nat} {c : Control} (replaces : m.Replaces m')
    (inside : ∀ target, c = .jump target → target < m.code.size) : Advances i next m c m' := by
  obtain ⟨k, out, above, room, same⟩ := replaces
  have thread : m'.toThread = { m.toThread with stack := m.stack.replaceTop k out } := by
    rw [same]
  refine ⟨?_, ?_, fun target jump => .inl (inside target jump)⟩
  · rw [thread]
    exact .replace above room
  · rw [thread]
    exact same

theorem effect_advances (wf : m.stack.WellFormed) {i : Instr} {next : Nat} {c : Control}
    (done : m.effect i next = .ok (c, m')) : Advances i next m c m' := by
  cases i with
  | nop =>
    cases done
    exact .of_replaces (.refl wf) nofun
  | halt =>
    cases done
    exact .of_replaces (.refl wf) nofun
  | jump target =>
    obtain ⟨offset, found, last⟩ := Action.map_eq_ok done
    cases last
    exact .of_replaces (.refl wf) fun _ same => Control.jump.inj same ▸ targetOf_lt found
  | branch sense target =>
    obtain ⟨v, present, rest⟩ := Action.bind_eq_ok done
    have above := OperandStack.lt_available_of_operand present
    by_cases taken : v.isTruthy = sense
    · simp only [taken, ↓reduceIte] at rest
      obtain ⟨offset, found, last⟩ := Action.map_eq_ok rest
      cases last
      exact .of_replaces (.of_consumed wf above (by simp) _ _)
        fun _ same => Control.jump.inj same ▸ targetOf_lt found
    · simp only [taken, ↓reduceIte] at rest
      cases rest
      exact .of_replaces (.of_consumed wf above (by simp) _ _) nofun
  | call target argc =>
    obtain ⟨offset, found, rest⟩ := Action.bind_eq_ok done
    obtain ⟨_, checked, last⟩ := Action.map_eq_ok rest
    cases last
    exact ⟨.enter checked, rfl, fun _ same => .inl (Control.jump.inj same ▸ targetOf_lt found)⟩
  | ret count =>
    obtain ⟨frame, checked, last⟩ := Action.map_eq_ok done
    cases last
    obtain ⟨nested, _, current⟩ := Thread.checkLeave_eq_ok checked
    refine ⟨.leave checked, rfl, fun _ same => .inr ⟨frame, current, nested, ?_⟩⟩
    exact (Control.jump.inj same).symm
  | store index =>
    obtain ⟨m₁, changed, last⟩ := Action.map_eq_ok done
    cases last
    obtain ⟨frame, v, current, found, _, same⟩ := change_store changed
    subst same
    exact ⟨.assign current (OperandStack.lt_available_of_operand found), rfl, nofun⟩
  | _ =>
    obtain ⟨m₁, changed, last⟩ := Action.map_eq_ok done
    cases last
    exact .of_replaces (change_replaces wf (fun _ same => by cases same) changed) nofun

end Machine

end StackMachine
