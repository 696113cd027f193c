import StackMachine.Proofs.Moves
import StackMachine.Proofs.ObjectMap

namespace StackMachine

theorem mem_of_mem_extract {α : Type} {values : Array α} {a : α} {i j : Nat}
    (member : a ∈ values.extract i j) : a ∈ values := by
  obtain ⟨k, _, rfl⟩ := Array.mem_extract_iff_getElem.mp member
  exact Array.getElem_mem _

theorem mem_of_mem_pop {α : Type} {values : Array α} {a : α} (member : a ∈ values.pop) :
    a ∈ values := by
  rw [← Array.mem_toList_iff, Array.toList_pop] at member
  exact Array.mem_toList_iff.mp (List.mem_of_mem_dropLast member)

namespace Value

theorem isRef_of_arith {op : ArithOp} {a b v : Value} (done : arith op a b = .ok v) :
    v.isRef = false := by
  unfold arith at done
  split at done
  · obtain ⟨n, _, rfl⟩ := Action.map_eq_ok done
    rfl
  · split at done
    · obtain ⟨x, _, rfl⟩ := Action.map_eq_ok done
      rfl
    · cases done

theorem isRef_of_bitwise {op : BitOp} {a b v : Value} (done : bitwise op a b = .ok v) :
    v.isRef = false := by
  unfold bitwise at done
  split at done <;> cases done
  rfl

theorem isRef_of_order {op : OrderOp} {a b v : Value} (done : order op a b = .ok v) :
    v.isRef = false := by
  unfold order at done
  split at done
  · cases done
    rfl
  · split at done <;> cases done
    rfl

theorem isRef_of_neg {a v : Value} (done : neg a = .ok v) : v.isRef = false := by
  unfold neg at done
  split at done <;> cases done <;> rfl

theorem isRef_of_intToFloat {a v : Value} (done : intToFloat a = .ok v) : v.isRef = false := by
  unfold intToFloat at done
  split at done <;> cases done
  rfl

theorem isRef_of_floatToInt {a v : Value} (done : floatToInt a = .ok v) : v.isRef = false := by
  unfold floatToInt at done
  split at done <;> cases done
  rfl

end Value

namespace Thread

variable {t : Thread} {h : Handle}

def Holds (t : Thread) (h : Handle) : Prop :=
  .ref h ∈ t.stack.values ∨ ∃ frame ∈ t.calls.frames, .ref h ∈ frame.locals

theorem Holds.of_replaceTop {k : Nat} {out : Array Value}
    (held : { t with stack := t.stack.replaceTop k out : Thread }.Holds h) :
    t.Holds h ∨ .ref h ∈ out := by
  rcases held with value | inFrame
  · rcases Array.mem_append.mp value with older | new
    · exact .inl (.inl (mem_of_mem_extract older))
    · exact .inr new
  · exact .inl (.inr inFrame)

theorem Holds.of_assigned {frame : Frame} {index : Nat} {v : Value}
    (current : t.calls.current? = some frame) (held : (t.assigned frame index v).Holds h) :
    t.Holds h ∨ v = .ref h := by
  rcases held with value | ⟨owner, member, inside⟩
  · rcases Array.mem_append.mp value with older | none
    · exact .inl (.inl (mem_of_mem_extract older))
    · simp at none
  · rcases Array.mem_push.mp member with older | newest
    · exact .inl (.inr ⟨owner, mem_of_mem_pop older, inside⟩)
    · subst newest
      rcases Array.mem_or_eq_of_mem_setIfInBounds inside with before | same
      · exact .inl (.inr ⟨frame, Array.mem_of_back? current, before⟩)
      · exact .inr same.symm

theorem Holds.of_entered {returnIp argc : Nat} (held : (t.entered returnIp argc).Holds h) :
    t.Holds h := by
  rcases held with value | ⟨owner, member, inside⟩
  · rcases Array.mem_append.mp value with older | none
    · exact .inl (mem_of_mem_extract older)
    · simp at none
  · rcases Array.mem_push.mp member with older | newest
    · exact .inr ⟨owner, older, inside⟩
    · subst newest
      rcases Array.mem_append.mp inside with argument | blank
      · exact .inl (mem_of_mem_extract argument)
      · have null := Array.eq_of_mem_replicate blank
        cases null

theorem Holds.of_departed {frame : Frame} {count : Nat} (held : (t.departed frame count).Holds h) :
    t.Holds h := by
  rcases held with value | ⟨owner, member, inside⟩
  · rcases Array.mem_append.mp value with below | result
    · exact .inl (mem_of_mem_extract below)
    · exact .inl (mem_of_mem_extract result)
  · exact .inr ⟨owner, mem_of_mem_pop member, inside⟩

end Thread

namespace Heap

variable {heap heap' : Heap} {g h : Handle}

def Holds (heap : Heap) (h : Handle) : Prop :=
  ∃ g fields, heap.get? g = some (.record fields) ∧ .ref h ∈ fields

theorem Holds.of_update {object : Option Object}
    (changed : heap'.get? = Function.update heap.get? g object) (held : heap'.Holds h) :
    heap.Holds h ∨ ∃ fields, object = some (.record fields) ∧ .ref h ∈ fields := by
  obtain ⟨owner, fields, present, inside⟩ := held
  rw [changed] at present
  by_cases here : owner = g
  · subst here
    rw [Function.update_self] at present
    exact .inr ⟨fields, present, inside⟩
  · rw [Function.update_of_ne here] at present
    exact .inl ⟨owner, fields, present, inside⟩

theorem Holds.of_allocate (tidy : heap.Tidy) {kind : ObjectKind} {n : Nat}
    (done : allocate kind n heap = .ok g heap') (held : heap'.Holds h) : heap.Holds h := by
  rcases Holds.of_update (allocate_get? tidy done).2 held with older | ⟨fields, blank, inside⟩
  · exact older
  · cases kind with
    | record =>
      cases blank
      have null := Array.eq_of_mem_replicate inside
      cases null
    | bytes => cases blank

theorem Holds.of_write {field : Nat} {v : Value} (done : write g field v heap = .ok () heap')
    (held : heap'.Holds h) : heap.Holds h ∨ v = .ref h := by
  obtain ⟨object, present, _, changed⟩ := write_get? done
  rcases Holds.of_update changed held with older | ⟨fields, stored, inside⟩
  · exact .inl older
  · cases object with
    | record before =>
      cases stored
      rcases Array.mem_or_eq_of_mem_setIfInBounds inside with older | same
      · exact .inl ⟨g, before, present, older⟩
      · exact .inr same.symm
    | bytes payload =>
      have kind := congrArg (Option.map Object.kind) stored
      simp only [Option.map_some, Object.kind_put] at kind
      cases kind

theorem Holds.of_release (done : release g heap = .ok () heap') (held : heap'.Holds h) :
    heap.Holds h := by
  rcases Holds.of_update (release_get? done).2 held with older | ⟨_, none, _⟩
  · exact older
  · cases none

theorem Holds.of_read {field : Nat} (done : read g field heap = .ok (.ref h) heap') :
    heap.Holds h := by
  unfold read at done
  split at done
  · cases done
  · rename_i object present
    split at done
    · rename_i v found
      cases done
      cases object with
      | record fields => exact ⟨g, fields, present, Array.mem_of_getElem? found⟩
      | bytes payload =>
        obtain ⟨b, _, byte⟩ := Option.map_eq_some_iff.mp found
        cases byte
    · cases done

end Heap

namespace Machine

variable {m m' : Machine} {i : Instr} {h : Handle}

/-- The reference is on the stack, in a local of a frame, or in a field of a live record. -/
def Holds (m : Machine) (h : Handle) : Prop := m.toThread.Holds h ∨ m.heap.Holds h

def Knows (m : Machine) (v : Value) : Prop := ∀ h, v = .ref h → m.Holds h

theorem Knows.of_isRef {v : Value} (plain : v.isRef = false) : m.Knows v := by
  rintro h rfl
  cases plain

theorem Knows.of_operand {n : Nat} {v : Value} (found : m.stack.operand n = .ok v) :
    m.Knows v := by
  rintro h rfl
  exact .inl (.inl (Array.mem_of_getElem? (OperandStack.operand_eq_ok found)))

theorem Knows.of_getLocal {index : Nat} {v : Value}
    (found : (CallStack.getLocal index).answer m.calls = .ok v) : m.Knows v := by
  rintro h rfl
  obtain ⟨_, done⟩ := Action.answer_eq_ok found
  unfold CallStack.getLocal at done
  split at done
  · cases done
  · rename_i frame current
    unfold Frame.getLocal at done
    cases entry : frame.locals[index]? with
    | none =>
      simp only [entry] at done
      cases done
    | some value =>
      simp only [entry] at done
      cases done
      exact .inl (.inr ⟨frame, Array.mem_of_back? current, Array.mem_of_getElem? entry⟩)

theorem Knows.of_read {g : Handle} {field : Nat} {v : Value}
    (found : (Heap.read g field).answer m.heap = .ok v) : m.Knows v := by
  rintro h rfl
  obtain ⟨_, done⟩ := Action.answer_eq_ok found
  exact .inr (.of_read done)

/-- What the completion of an instruction means for the references and for the heap. -/
structure Carries (i : Instr) (m m' : Machine) : Prop where
  held : ∀ h, m'.Holds h → m.Holds h ∨ ∃ kind size, i = .new kind size ∧
    Heap.allocate kind size.toNat m.heap = .ok h m'.heap ∧
    m'.stack.values = m.stack.values.push (.ref h)
  heap : m'.heap = m.heap ∨ ∃ op : Heap.Op, m'.heap = op.apply m.heap

theorem Carries.of_thread (heap : m'.heap = m.heap)
    (thread : ∀ h, m'.toThread.Holds h → m.Holds h) : Carries i m m' := by
  refine ⟨?_, .inl heap⟩
  rintro h (held | held)
  · exact .inl (thread h held)
  · rw [heap] at held
    exact .inl (.inr held)

theorem Carries.of_replaceTop {k : Nat} {out : Array Value} (known : ∀ v ∈ out, m.Knows v)
    (journal : Journal) :
    Carries i m { m with stack := m.stack.replaceTop k out, journal := journal } := by
  refine .of_thread rfl ?_
  intro h held
  rcases Thread.Holds.of_replaceTop held with older | new
  · exact .inl older
  · exact known (.ref h) new h rfl

theorem Carries.refl (i : Instr) (m : Machine) : Carries i m m :=
  .of_thread rfl fun _ held => .inl held

theorem pushEffect_carries {v : Value} (known : m.Knows v) (done : m.pushEffect v = .ok m') :
    Carries i m m' := by
  unfold pushEffect at done
  split at done
  · cases done
  · cases done
    apply Carries.of_replaceTop
    simpa using known

theorem unaryEffect_carries {f : Value → Except Fault Value}
    (plain : ∀ {a v}, f a = .ok v → v.isRef = false) (done : m.unaryEffect f = .ok m') :
    Carries i m m' := by
  obtain ⟨a, _, rest⟩ := Action.bind_eq_ok done
  obtain ⟨result, computed, last⟩ := Action.bind_eq_ok rest
  cases last
  apply Carries.of_replaceTop
  simpa using Knows.of_isRef (plain computed)

theorem binaryEffect_carries {f : Value → Value → Except Fault Value}
    (plain : ∀ {a b v}, f a b = .ok v → v.isRef = false) (done : m.binaryEffect f = .ok m') :
    Carries i m m' := by
  obtain ⟨b, _, rest⟩ := Action.bind_eq_ok done
  obtain ⟨a, _, rest⟩ := Action.bind_eq_ok rest
  obtain ⟨result, computed, last⟩ := Action.bind_eq_ok rest
  cases last
  apply Carries.of_replaceTop
  simpa using Knows.of_isRef (plain computed)

theorem allocateEffect_carries (tidy : m.heap.Tidy) {kind : ObjectKind} {size : UInt32}
    (done : m.allocateEffect kind size.toNat = .ok m') : Carries (.new kind size) m m' := by
  unfold allocateEffect at done
  split at done
  · cases done
  · obtain ⟨handle, heap, allocated, rfl⟩ := heapEffect_eq_ok done
    refine ⟨?_, .inr ⟨.allocate kind size.toNat, ?_⟩⟩
    · rintro h (held | held)
      · rcases Thread.Holds.of_replaceTop held with older | new
        · exact .inl (.inl older)
        · have same : h = handle := by simpa using new
          subst same
          refine .inr ⟨kind, size, rfl, allocated, ?_⟩
          simp [note, replaceTop, OperandStack.replaceTop, OperandStack.depth]
      · exact .inl (.inr (.of_allocate tidy allocated held))
    · simp only [Heap.Op.apply, allocated]
      rfl

theorem write_carries {g : Handle} {field k : Nat} {v : Value} (known : m.Knows v)
    (done : m.heapEffect (Heap.write g field v) (fun _ m => m.replaceTop k #[]) = .ok m') :
    Carries i m m' := by
  obtain ⟨_, heap, written, rfl⟩ := heapEffect_eq_ok done
  refine ⟨?_, .inr ⟨.write g field v, ?_⟩⟩
  · rintro h (held | held)
    · rcases Thread.Holds.of_replaceTop held with older | none
      · exact .inl (.inl older)
      · simp at none
    · rcases Heap.Holds.of_write written held with older | same
      · exact .inl (.inr older)
      · exact .inl (known h same)
  · simp only [Heap.Op.apply, written]
    rfl

theorem release_carries {g : Handle} {k : Nat} {e : Event}
    (done : m.heapEffect (Heap.release g) (fun _ m => (m.note e).replaceTop k #[]) = .ok m') :
    Carries i m m' := by
  obtain ⟨_, heap, released, rfl⟩ := heapEffect_eq_ok done
  refine ⟨?_, .inr ⟨.release g, ?_⟩⟩
  · rintro h (held | held)
    · rcases Thread.Holds.of_replaceTop held with older | none
      · exact .inl (.inl older)
      · simp at none
    · exact .inl (.inr (.of_release released held))
  · simp only [Heap.Op.apply, released]
    rfl

theorem change_carries (tidy : m.heap.Tidy) (done : m.change i = .ok m') : Carries i m m' := by
  cases i with
  | push n => exact pushEffect_carries (.of_isRef rfl) done
  | pushLong n => exact pushEffect_carries (.of_isRef rfl) done
  | pushFloat x => exact pushEffect_carries (.of_isRef rfl) done
  | pushNull => exact pushEffect_carries (.of_isRef rfl) done
  | pop =>
    obtain ⟨v, _, last⟩ := Action.map_eq_ok done
    cases last
    exact .of_replaceTop (by simp) _
  | dup =>
    obtain ⟨v, found, last⟩ := Action.bind_eq_ok done
    exact pushEffect_carries (.of_operand found) last
  | swap =>
    obtain ⟨b, top, rest⟩ := Action.bind_eq_ok done
    obtain ⟨a, second, last⟩ := Action.bind_eq_ok rest
    cases last
    apply Carries.of_replaceTop
    simpa using ⟨Knows.of_operand top, Knows.of_operand second⟩
  | pick depth =>
    obtain ⟨v, found, last⟩ := Action.bind_eq_ok done
    exact pushEffect_carries (.of_operand found) last
  | arith op => exact binaryEffect_carries Value.isRef_of_arith done
  | neg => exact unaryEffect_carries Value.isRef_of_neg done
  | bitwise op => exact binaryEffect_carries Value.isRef_of_bitwise done
  | eq => exact binaryEffect_carries (fun same => Except.ok.inj same ▸ rfl) done
  | ne => exact binaryEffect_carries (fun same => Except.ok.inj same ▸ rfl) done
  | order op => exact binaryEffect_carries Value.isRef_of_order done
  | not => exact unaryEffect_carries (fun same => Except.ok.inj same ▸ rfl) done
  | intToFloat => exact unaryEffect_carries Value.isRef_of_intToFloat done
  | floatToInt => exact unaryEffect_carries Value.isRef_of_floatToInt done
  | load index =>
    obtain ⟨v, found, last⟩ := Action.bind_eq_ok done
    exact pushEffect_carries (.of_getLocal found) last
  | store index =>
    obtain ⟨frame, v, current, found, _, rfl⟩ := change_store done
    refine .of_thread rfl ?_
    intro h held
    rcases Thread.Holds.of_assigned current held with older | same
    · exact .inl older
    · exact Knows.of_operand found h same
  | new kind size => exact allocateEffect_carries tidy done
  | getField field =>
    obtain ⟨handle, _, rest⟩ := Action.bind_eq_ok done
    obtain ⟨v, found, last⟩ := Action.bind_eq_ok rest
    cases last
    apply Carries.of_replaceTop
    simpa using Knows.of_read found
  | setField field =>
    obtain ⟨v, found, rest⟩ := Action.bind_eq_ok done
    obtain ⟨handle, _, last⟩ := Action.bind_eq_ok rest
    exact write_carries (.of_operand found) last
  | getIndex =>
    obtain ⟨index, _, rest⟩ := Action.bind_eq_ok done
    obtain ⟨handle, _, rest⟩ := Action.bind_eq_ok rest
    obtain ⟨v, found, last⟩ := Action.bind_eq_ok rest
    cases last
    apply Carries.of_replaceTop
    simpa using Knows.of_read found
  | setIndex =>
    obtain ⟨v, found, rest⟩ := Action.bind_eq_ok done
    obtain ⟨index, _, rest⟩ := Action.bind_eq_ok rest
    obtain ⟨handle, _, last⟩ := Action.bind_eq_ok rest
    exact write_carries (.of_operand found) last
  | len =>
    obtain ⟨handle, _, rest⟩ := Action.bind_eq_ok done
    obtain ⟨length, _, last⟩ := Action.bind_eq_ok rest
    cases last
    apply Carries.of_replaceTop
    simpa using (Knows.of_isRef rfl : m.Knows (.int (Int64.ofNat length)))
  | free =>
    obtain ⟨handle, _, last⟩ := Action.bind_eq_ok done
    exact release_carries last
  | _ =>
    cases done
    exact .refl _ m

theorem effect_carries (tidy : m.heap.Tidy) {next : Nat} {c : Control}
    (done : m.effect i next = .ok (c, m')) : Carries i m m' := by
  cases i with
  | nop =>
    cases done
    exact .refl _ m
  | halt =>
    cases done
    exact .refl _ m
  | jump target =>
    obtain ⟨offset, _, last⟩ := Action.map_eq_ok done
    cases last
    exact .refl _ m
  | branch sense target =>
    obtain ⟨v, _, rest⟩ := Action.bind_eq_ok done
    by_cases taken : v.isTruthy = sense
    · simp only [taken, ↓reduceIte] at rest
      obtain ⟨offset, _, last⟩ := Action.map_eq_ok rest
      cases last
      exact .of_replaceTop (by simp) _
    · simp only [taken, ↓reduceIte] at rest
      cases rest
      exact .of_replaceTop (by simp) _
  | call target argc =>
    obtain ⟨offset, _, rest⟩ := Action.bind_eq_ok done
    obtain ⟨_, _, last⟩ := Action.map_eq_ok rest
    cases last
    exact .of_thread rfl fun h held => .inl (Thread.Holds.of_entered held)
  | ret count =>
    obtain ⟨frame, _, last⟩ := Action.map_eq_ok done
    cases last
    exact .of_thread rfl fun h held => .inl (Thread.Holds.of_departed held)
  | _ =>
    obtain ⟨after, changed, last⟩ := Action.map_eq_ok done
    cases last
    exact change_carries tidy changed

end Machine

end StackMachine
