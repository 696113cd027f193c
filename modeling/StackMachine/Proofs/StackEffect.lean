import StackMachine.Proofs.Provenance
import StackMachine.Proofs.Safety

namespace StackMachine

namespace Opcode

def takes : Opcode → Nat
  | pop | dup | neg | not | intToFloat | floatToInt | jumpIfZero | jumpIfNonzero | store
  | getField | len | free => 1
  | swap | add | sub | mul | div | mod | and | or | xor | shl | shr | eq | ne | lt | le | gt | ge
  | setField | getIndex => 2
  | setIndex => 3
  | _ => 0

def gives : Opcode → Nat
  | dup | swap => 2
  | push | pushLong | pushFloat | pushNull | pick | add | sub | mul | div | mod | neg | and | or
  | xor | shl | shr | eq | ne | lt | le | gt | ge | not | intToFloat | floatToInt | load
  | newRecord | newBytes | getField | getIndex | len => 1
  | _ => 0

def changesHeap : Opcode → Bool
  | newRecord | newBytes | setField | setIndex | free => true
  | _ => false

end Opcode

namespace Instr

/-- The number of values that have to lie above the floor. A copy looks at values that it leaves. -/
def needs : Instr → Nat
  | pick depth => depth.toNat + 1
  | call _ argc => argc.toNat
  | ret count => count.toNat
  | i => i.opcode.takes

def isPlain : Instr → Bool
  | call _ _ | ret _ => false
  | _ => true

def control (taken : List Value) : Instr → Control
  | halt => .halt
  | jump target => .jump target.toNat
  | branch sense target =>
    if taken.map Value.isTruthy = [sense] then .jump target.toNat else .proceed
  | _ => .proceed

/-- The stack effects. The instruction takes `taken` off the stack and puts `given` there, the top
value last; `rest` is what lies below. It finds `locals` in the current frame, and `heap` becomes
`heap'`. -/
inductive Trades (rest : List Value) (locals : Array Value) (heap : Heap) :
    Instr → (taken given : List Value) → (heap' : Heap) → Prop where
  | nop : Trades rest locals heap nop [] [] heap
  | halt : Trades rest locals heap halt [] [] heap
  | push (n : Int32) : Trades rest locals heap (push n) [] [.int n.toInt64] heap
  | pushLong (n : Int64) : Trades rest locals heap (pushLong n) [] [.int n] heap
  | pushFloat (x : Binary64) : Trades rest locals heap (pushFloat x) [] [.float x] heap
  | pushNull : Trades rest locals heap pushNull [] [.null] heap
  | pop (a : Value) : Trades rest locals heap pop [a] [] heap
  | dup (a : Value) : Trades rest locals heap dup [a] [a, a] heap
  | swap (a b : Value) : Trades rest locals heap swap [a, b] [b, a] heap
  | pick {depth : UInt32} {a : Value} : rest.reverse[depth.toNat]? = some a →
      Trades rest locals heap (pick depth) [] [a] heap
  | arith {op : ArithOp} {a b c : Value} : Value.arith op a b = .ok c →
      Trades rest locals heap (arith op) [a, b] [c] heap
  | neg {a b : Value} : a.neg = .ok b → Trades rest locals heap neg [a] [b] heap
  | bitwise {op : BitOp} {a b c : Value} : Value.bitwise op a b = .ok c →
      Trades rest locals heap (bitwise op) [a, b] [c] heap
  | eq (a b : Value) : Trades rest locals heap eq [a, b] [.ofBool (a.equals b)] heap
  | ne (a b : Value) : Trades rest locals heap ne [a, b] [.ofBool (!a.equals b)] heap
  | order {op : OrderOp} {a b c : Value} : Value.order op a b = .ok c →
      Trades rest locals heap (order op) [a, b] [c] heap
  | not (a : Value) : Trades rest locals heap not [a] [.ofBool (!a.isTruthy)] heap
  | intToFloat {a b : Value} : a.intToFloat = .ok b →
      Trades rest locals heap intToFloat [a] [b] heap
  | floatToInt {a b : Value} : a.floatToInt = .ok b →
      Trades rest locals heap floatToInt [a] [b] heap
  | jump (target : UInt32) : Trades rest locals heap (jump target) [] [] heap
  | branch (sense : Bool) (target : UInt32) (a : Value) :
      Trades rest locals heap (branch sense target) [a] [] heap
  | load {index : UInt8} {a : Value} : locals[index.toNat]? = some a →
      Trades rest locals heap (load index) [] [a] heap
  | store {index : UInt8} {a : Value} : index.toNat < locals.size →
      Trades rest locals heap (store index) [a] [] heap
  | new {kind : ObjectKind} {size : UInt32} {h : Handle} {heap' : Heap} :
      Heap.allocate kind size.toNat heap = .ok h heap' →
      Trades rest locals heap (new kind size) [] [.ref h] heap'
  | getField {field : UInt32} {h : Handle} {a : Value} : heap.toMap.read h field.toNat = .ok a →
      Trades rest locals heap (getField field) [.ref h] [a] heap
  | setField {field : UInt32} {h : Handle} {a : Value} {heap' : Heap} :
      Heap.write h field.toNat a heap = .ok () heap' →
      Trades rest locals heap (setField field) [.ref h, a] [] heap'
  | getIndex {h : Handle} {k : Int64} {a : Value} : 0 ≤ k.toInt →
      heap.toMap.read h k.toInt.toNat = .ok a →
      Trades rest locals heap getIndex [.ref h, .int k] [a] heap
  | setIndex {h : Handle} {k : Int64} {a : Value} {heap' : Heap} : 0 ≤ k.toInt →
      Heap.write h k.toInt.toNat a heap = .ok () heap' →
      Trades rest locals heap setIndex [.ref h, .int k, a] [] heap'
  | len {h : Handle} {n : Nat} : heap.toMap.length h = .ok n →
      Trades rest locals heap len [.ref h] [.int (Int64.ofNat n)] heap
  | free {h : Handle} {heap' : Heap} : Heap.release h heap = .ok () heap' →
      Trades rest locals heap free [.ref h] [] heap'

section

variable {rest taken given : List Value} {locals : Array Value} {heap heap' : Heap} {i : Instr}

theorem Trades.lengths (trades : i.Trades rest locals heap taken given heap') :
    taken.length = i.opcode.takes ∧ given.length = i.opcode.gives := by
  cases trades with
  | @arith op => cases op <;> exact ⟨rfl, rfl⟩
  | @bitwise op => cases op <;> exact ⟨rfl, rfl⟩
  | @order op => cases op <;> exact ⟨rfl, rfl⟩
  | branch sense target a => cases sense <;> exact ⟨rfl, rfl⟩
  | @new kind => cases kind <;> exact ⟨rfl, rfl⟩
  | _ => exact ⟨rfl, rfl⟩

theorem Trades.heap_eq (trades : i.Trades rest locals heap taken given heap')
    (other : i.opcode.changesHeap = false) : heap' = heap := by
  cases trades with
  | @new kind => cases kind <;> cases other
  | setField _ => cases other
  | setIndex _ _ => cases other
  | free _ => cases other
  | _ => rfl

end

end Instr

def Control.landing (next : Nat) : Control → Nat
  | .jump target => target
  | .proceed | .halt => next

namespace OperandStack

variable {s : OperandStack} {k n : Nat} {v a b : Value} {out : Array Value}

def topmost (k : Nat) (s : OperandStack) : List Value := s.toList.drop (s.depth - k)

def below (k : Nat) (s : OperandStack) : List Value := s.toList.take (s.depth - k)

theorem below_append_topmost (k : Nat) (s : OperandStack) : s.below k ++ s.topmost k = s.toList :=
  List.take_append_drop _ _

theorem length_below (k : Nat) (s : OperandStack) : (s.below k).length = s.depth - k := by
  rw [below, List.length_take]
  exact Nat.min_eq_left (Nat.sub_le _ _)

theorem topmost_zero (s : OperandStack) : s.topmost 0 = [] := List.drop_length

theorem topmost_succ (found : s.operand n = .ok v) : s.topmost (n + 1) = v :: s.topmost n := by
  have above := lt_available_of_operand found
  unfold available at above
  have inside : s.depth - (n + 1) < s.toList.length := by
    change s.depth - (n + 1) < s.depth
    omega
  have next : s.depth - (n + 1) + 1 = s.depth - n := by omega
  have index : s.depth - 1 - n = s.depth - (n + 1) := by omega
  have here : s.toList[s.depth - (n + 1)]? = some v := by
    rw [toList, Array.getElem?_toList, ← index]
    exact operand_eq_ok found
  rw [topmost, List.drop_eq_getElem_cons inside, next]
  congr 1
  exact Option.some.inj ((List.getElem?_eq_getElem inside).symm.trans here)

theorem topmost_one (found : s.operand 0 = .ok v) : s.topmost 1 = [v] := by
  rw [topmost_succ found, topmost_zero]

theorem topmost_two (top : s.operand 0 = .ok b) (second : s.operand 1 = .ok a) :
    s.topmost 2 = [a, b] := by
  rw [topmost_succ second, topmost_one top]

theorem reverse_below_zero (found : s.operand n = .ok v) : (s.below 0).reverse[n]? = some v := by
  have above := lt_available_of_operand found
  unfold available at above
  have whole : s.below 0 = s.toList := List.take_length
  have size : s.toList.length = s.depth := rfl
  rw [whole, List.getElem?_reverse (by omega), size, toList, Array.getElem?_toList]
  exact operand_eq_ok found

theorem replaceTop_eq (k : Nat) (out : Array Value) (s : OperandStack) :
    s.replaceTop k out = { s with values := (s.below k ++ out.toList).toArray } := by
  simp [replaceTop, below, toList]

theorem replaceTop_copy (found : s.operand 0 = .ok v) :
    s.replaceTop 0 #[v] = s.replaceTop 1 #[v, v] := by
  have whole : s.below 0 = s.below 1 ++ [v] := by
    rw [← topmost_one found, below_append_topmost]
    exact List.take_length
  rw [replaceTop_eq, replaceTop_eq, whole, List.append_assoc]
  rfl

end OperandStack

def CallStack.assign (index : Nat) (v : Value) (c : CallStack) : CallStack :=
  { c with
    frames := c.frames.modify (c.frames.size - 1) fun frame =>
      { frame with locals := frame.locals.setIfInBounds index v } }

theorem CallStack.assign_eq {c : CallStack} {frame : Frame} (current : c.current? = some frame)
    (index : Nat) (v : Value) :
    c.assign index v =
      { c with
        frames := c.frames.pop.push
          { frame with locals := frame.locals.setIfInBounds index v } } := by
  obtain ⟨older, same⟩ := Array.back?_eq_some_iff.mp current
  rw [assign, same]
  congr 1
  apply Array.ext_getElem?
  intro i
  simp only [Array.getElem?_modify, Array.getElem?_push, Array.size_push, Array.pop_push]
  grind

theorem CallStack.getElem?_of_getLocal {c : CallStack} {frame : Frame} {index : Nat} {v : Value}
    (current : c.current? = some frame) (found : (CallStack.getLocal index).answer c = .ok v) :
    frame.locals[index]? = some v := by
  obtain ⟨_, done⟩ := Action.answer_eq_ok found
  simp only [CallStack.getLocal, current, Frame.getLocal] at done
  cases present : frame.locals[index]? with
  | none =>
    simp only [present] at done
    cases done
  | some a =>
    simp only [present] at done
    cases done
    rfl

theorem ObjectMap.lt_length_of_read {objects : ObjectMap} {h : Handle} {field : Nat} {v : Value}
    (found : objects.read h field = .ok v) : ∃ n, objects.length h = .ok n ∧ field < n := by
  unfold ObjectMap.read at found
  unfold ObjectMap.length
  split at found
  · cases found
  · rename_i kind items present
    split at found
    · rename_i value inside
      exact ⟨items.length, rfl, (List.getElem?_eq_some_iff.mp inside).1⟩
    · cases found

namespace Heap

variable {heap heap' : Heap} {h : Handle}

/-- No object is longer than the field that stands for a negative index. -/
def Addressable (heap : Heap) : Prop := ∀ h n, heap.toMap.length h = .ok n → n ≤ maxSize

theorem Addressable.apply (addressable : heap.Addressable) (tidy : heap.Tidy) (op : Op) :
    (op.apply heap).Addressable := by
  intro g n length
  have step := op.step_apply heap
  generalize op.apply heap = heap' at step length
  cases step with
  | unchanged => exact addressable g n length
  | @allocated kind size h _ done =>
    have bounds := (allocate_eq_ok tidy done).1.1
    rw [(allocate_toMap tidy done).2] at length
    by_cases here : g = h
    · subst here
      simp only [ObjectMap.length, Function.update_self, List.length_replicate] at length
      cases length
      unfold ObjectKind.charge at bounds
      cases kind <;> simp only [ObjectKind.elementCharge] at bounds <;> omega
    · simp only [ObjectMap.length, Function.update_of_ne here] at length
      exact addressable g n length
  | written done =>
    rw [write_toMap done, ObjectMap.length_store] at length
    exact addressable g n length
  | @released h _ done =>
    rw [toMap_of_get? (release_get? done).2] at length
    by_cases here : g = h
    · subst here
      simp only [ObjectMap.length, Function.update_self, Option.map_none] at length
      cases length
    · simp only [ObjectMap.length, Function.update_of_ne here] at length
      exact addressable g n length
  | cleared =>
    simp only [ObjectMap.length, toMap, clear_get?, Option.map_none] at length
    cases length

theorem Evolves.addressable (evolves : heap.Evolves heap') (tidy : heap.Tidy)
    (addressable : heap.Addressable) : heap'.Addressable :=
  evolves.tidy_invariant (P := Addressable) tidy (fun _ tidy op kept => kept.apply tidy op)
    addressable

theorem Addressable.of_read (addressable : heap.Addressable) {k : Int64} {v : Value}
    (found : heap.toMap.read h (if k.toInt < 0 then maxSize else k.toInt.toNat) = .ok v) :
    0 ≤ k.toInt := by
  obtain ⟨n, length, inside⟩ := ObjectMap.lt_length_of_read found
  have bound := addressable h n length
  split at inside <;> omega

theorem Addressable.of_write (addressable : heap.Addressable) {k : Int64} {v : Value}
    (done : write h (if k.toInt < 0 then maxSize else k.toInt.toNat) v heap = .ok () heap') :
    0 ≤ k.toInt := by
  obtain ⟨kind, items, present, inside, _⟩ := exists_write_iff.mp ⟨heap', done⟩
  have length : heap.toMap.length h = .ok items.length := by rw [ObjectMap.length, present]
  have bound := addressable h _ length
  split at inside <;> omega

end Heap

namespace Machine

variable {m m' m₀ : Machine} {i : Instr} {journal : Journal} {code : Code} {config : Config}

theorem Reaches.addressable (made : create journal code config = .ok m₀)
    (reached : m₀.Reaches m) : m.heap.Addressable := by
  obtain ⟨coherent, tidy⟩ := create_coherent made
  refine (reached.evolves coherent tidy).2.addressable tidy ?_
  obtain ⟨_, _, _, rfl⟩ := ofParts_eq_ok made
  intro h n length
  cases length

def callsAfter (i : Instr) (taken : List Value) (m : Machine) : CallStack :=
  match i, taken with
  | .store index, [v] => m.calls.assign index.toNat v
  | _, _ => m.calls

/-- The instruction has had its effect: the values `taken` lay above the floor on top of `rest`, and
`given` lies there now; nothing but what the instruction is for has changed. -/
structure Performs (i : Instr) (m : Machine) (control : Control) (m' : Machine)
    (rest taken given : List Value) : Prop where
  before : m.stack.toList = rest ++ taken
  floor_le : m.stack.floor ≤ rest.length
  after : m'.stack = { m.stack with values := (rest ++ given).toArray }
  takes : taken.length = i.opcode.takes
  gives : given.length = i.opcode.gives
  needs : i.needs ≤ m.stack.available
  trades : ∃ frame, m.calls.current? = some frame ∧
    i.Trades rest frame.locals m.heap taken given m'.heap
  calls : m'.calls = m.callsAfter i taken
  heap : i.opcode.changesHeap = false → m'.heap = m.heap
  goes : control = i.control taken

theorem Performs.advance {after : Machine} {control : Control} {next : Nat} {more : Bool}
    {event : Event} {rest taken given : List Value}
    (performs : Performs i (m.note event) control after rest taken given)
    (advanced : Machine.advance i next control after = .ok more m') :
    Performs i m control m' rest taken given ∧ m'.ip = control.landing next := by
  obtain ⟨before, floor_le, stack, takes, gives, needs, trades, calls, heap, goes⟩ := performs
  cases control <;> cases advanced <;>
    exact ⟨⟨before, floor_le, stack, takes, gives, needs, trades, calls, heap, goes⟩, rfl⟩

section

variable {frame : Frame} {control : Control} {k : Nat} {taken given : List Value} {v : Value}

theorem performs_of_replaceTop (wf : m.stack.WellFormed) (current : m.calls.current? = some frame)
    (above : k ≤ m.stack.available) (needs : i.needs ≤ m.stack.available)
    (top : m.stack.topmost k = taken) (stack : m'.stack = m.stack.replaceTop k given.toArray)
    (calls : m'.calls = m.callsAfter i taken) (goes : control = i.control taken)
    (trades : i.Trades (m.stack.below k) frame.locals m.heap taken given m'.heap) :
    ∃ rest taken given, Performs i m control m' rest taken given := by
  have ground := wf.floor_le
  refine ⟨m.stack.below k, taken, given, ?_⟩
  constructor
  · rw [← top, OperandStack.below_append_topmost]
  · rw [OperandStack.length_below]
    unfold OperandStack.available at above
    omega
  · rw [stack, OperandStack.replaceTop_eq]
  · exact trades.lengths.1
  · exact trades.lengths.2
  · exact needs
  · exact ⟨frame, current, trades⟩
  · exact calls
  · exact trades.heap_eq
  · exact goes

theorem performs_of_idle (wf : m.stack.WellFormed) (current : m.calls.current? = some frame)
    (needs : i.needs = 0) (calls : m.callsAfter i [] = m.calls) (goes : control = i.control [])
    (trades : i.Trades (m.stack.below 0) frame.locals m.heap [] [] m.heap) :
    ∃ rest taken given, Performs i m control m rest taken given := by
  have unchanged : m.stack = m.stack.replaceTop 0 #[] := by
    simp [OperandStack.replaceTop, OperandStack.depth]
  exact performs_of_replaceTop wf current (Nat.zero_le _) (needs ▸ Nat.zero_le _)
    m.stack.topmost_zero unchanged calls.symm goes trades

theorem pushEffect_performs (wf : m.stack.WellFormed) (current : m.calls.current? = some frame)
    (done : m.pushEffect v = .ok m') (needs : i.needs ≤ m.stack.available)
    (calls : m.callsAfter i [] = m.calls) (goes : control = i.control [])
    (trades : i.Trades (m.stack.below 0) frame.locals m.heap [] [v] m.heap) :
    ∃ rest taken given, Performs i m control m' rest taken given := by
  unfold pushEffect at done
  split at done
  · cases done
  · cases done
    exact performs_of_replaceTop wf current (Nat.zero_le _) needs m.stack.topmost_zero rfl
      calls.symm goes trades

theorem unaryEffect_performs {f : Value → Except Fault Value} (wf : m.stack.WellFormed)
    (current : m.calls.current? = some frame) (done : m.unaryEffect f = .ok m')
    (needs : i.needs = 1) (calls : ∀ a, m.callsAfter i [a] = m.calls)
    (goes : ∀ taken, control = i.control taken)
    (trades : ∀ {a b}, f a = .ok b →
      i.Trades (m.stack.below 1) frame.locals m.heap [a] [b] m.heap) :
    ∃ rest taken given, Performs i m control m' rest taken given := by
  obtain ⟨a, found, rest⟩ := Action.bind_eq_ok done
  obtain ⟨result, computed, last⟩ := Action.bind_eq_ok rest
  cases last
  have above := OperandStack.lt_available_of_operand found
  exact performs_of_replaceTop wf current above (by omega) (OperandStack.topmost_one found) rfl
    (calls a).symm (goes _) (trades computed)

theorem binaryEffect_performs {f : Value → Value → Except Fault Value} (wf : m.stack.WellFormed)
    (current : m.calls.current? = some frame) (done : m.binaryEffect f = .ok m')
    (needs : i.needs = 2) (calls : ∀ a b, m.callsAfter i [a, b] = m.calls)
    (goes : ∀ taken, control = i.control taken)
    (trades : ∀ {a b c}, f a b = .ok c →
      i.Trades (m.stack.below 2) frame.locals m.heap [a, b] [c] m.heap) :
    ∃ rest taken given, Performs i m control m' rest taken given := by
  obtain ⟨b, top, rest⟩ := Action.bind_eq_ok done
  obtain ⟨a, second, rest⟩ := Action.bind_eq_ok rest
  obtain ⟨result, computed, last⟩ := Action.bind_eq_ok rest
  cases last
  have above := OperandStack.lt_available_of_operand second
  exact performs_of_replaceTop wf current above (by omega) (OperandStack.topmost_two top second) rfl
    (calls a b).symm (goes _) (trades computed)

theorem handleAt_eq_ok {n : Nat} {op : Opcode} {h : Handle} (found : m.handleAt n op = .ok h) :
    m.stack.operand n = .ok (.ref h) := by
  obtain ⟨v, value, rest⟩ := Action.bind_eq_ok found
  cases v <;> cases rest
  exact value

theorem indexAt_eq_ok {n index : Nat} {op : Opcode} (found : m.indexAt n op = .ok index) :
    ∃ k : Int64, m.stack.operand n = .ok (.int k) ∧
      index = if k.toInt < 0 then Heap.maxSize else k.toInt.toNat := by
  obtain ⟨v, value, rest⟩ := Action.bind_eq_ok found
  cases v <;> cases rest
  exact ⟨_, value, rfl⟩

theorem change_performs (wf : m.stack.WellFormed) (current : m.calls.current? = some frame)
    (addressable : m.heap.Addressable) (done : m.change i = .ok m')
    (goes : ∀ taken, .proceed = i.control taken) (plain : i.isPlain = true) :
    ∃ rest taken given, Performs i m .proceed m' rest taken given := by
  cases i with
  | nop =>
    cases done
    exact performs_of_idle wf current rfl rfl rfl .nop
  | push n => exact pushEffect_performs wf current done (Nat.zero_le _) rfl rfl (.push n)
  | pushLong n => exact pushEffect_performs wf current done (Nat.zero_le _) rfl rfl (.pushLong n)
  | pushFloat x => exact pushEffect_performs wf current done (Nat.zero_le _) rfl rfl (.pushFloat x)
  | pushNull => exact pushEffect_performs wf current done (Nat.zero_le _) rfl rfl .pushNull
  | pop =>
    obtain ⟨a, found, last⟩ := Action.map_eq_ok done
    cases last
    have above := OperandStack.lt_available_of_operand found
    exact performs_of_replaceTop wf current above above (OperandStack.topmost_one found) rfl rfl
      rfl (.pop a)
  | dup =>
    obtain ⟨a, found, last⟩ := Action.bind_eq_ok done
    have above := OperandStack.lt_available_of_operand found
    -- the copy goes on top of the value, which counts as taken and given back
    have copied := OperandStack.replaceTop_copy found
    unfold pushEffect at last
    split at last
    · cases last
    · cases last
      exact performs_of_replaceTop wf current above above (OperandStack.topmost_one found) copied
        rfl rfl (.dup a)
  | swap =>
    obtain ⟨b, top, rest⟩ := Action.bind_eq_ok done
    obtain ⟨a, second, last⟩ := Action.bind_eq_ok rest
    cases last
    have above := OperandStack.lt_available_of_operand second
    exact performs_of_replaceTop wf current above above (OperandStack.topmost_two top second) rfl
      rfl rfl (.swap a b)
  | pick depth =>
    obtain ⟨a, found, last⟩ := Action.bind_eq_ok done
    exact pushEffect_performs wf current last (OperandStack.lt_available_of_operand found) rfl rfl
      (.pick (OperandStack.reverse_below_zero found))
  | arith op =>
    exact binaryEffect_performs wf current done (by cases op <;> rfl) (fun _ _ => rfl)
      (fun _ => rfl) .arith
  | neg => exact unaryEffect_performs wf current done rfl (fun _ => rfl) (fun _ => rfl) .neg
  | bitwise op =>
    exact binaryEffect_performs wf current done (by cases op <;> rfl) (fun _ _ => rfl)
      (fun _ => rfl) .bitwise
  | eq =>
    apply binaryEffect_performs wf current done rfl (fun _ _ => rfl) (fun _ => rfl)
    intro a b c computed
    cases computed
    exact .eq a b
  | ne =>
    apply binaryEffect_performs wf current done rfl (fun _ _ => rfl) (fun _ => rfl)
    intro a b c computed
    cases computed
    exact .ne a b
  | order op =>
    exact binaryEffect_performs wf current done (by cases op <;> rfl) (fun _ _ => rfl)
      (fun _ => rfl) .order
  | not =>
    apply unaryEffect_performs wf current done rfl (fun _ => rfl) (fun _ => rfl)
    intro a b computed
    cases computed
    exact .not a
  | intToFloat =>
    exact unaryEffect_performs wf current done rfl (fun _ => rfl) (fun _ => rfl) .intToFloat
  | floatToInt =>
    exact unaryEffect_performs wf current done rfl (fun _ => rfl) (fun _ => rfl) .floatToInt
  | load index =>
    obtain ⟨a, found, last⟩ := Action.bind_eq_ok done
    exact pushEffect_performs wf current last (Nat.zero_le _) rfl rfl
      (.load (CallStack.getElem?_of_getLocal current found))
  | store index =>
    obtain ⟨last, v, same, found, inside, rfl⟩ := change_store done
    cases current.symm.trans same
    have above := OperandStack.lt_available_of_operand found
    exact performs_of_replaceTop wf current above above (OperandStack.topmost_one found) rfl
      (CallStack.assign_eq current index.toNat v).symm rfl (.store inside)
  | new kind size =>
    change m.allocateEffect kind size.toNat = .ok m' at done
    unfold allocateEffect at done
    split at done
    · cases done
    · obtain ⟨h, heap, allocated, rfl⟩ := heapEffect_eq_ok done
      have needs : (Instr.new kind size).needs ≤ m.stack.available := by
        cases kind <;> exact Nat.zero_le _
      exact performs_of_replaceTop wf current (Nat.zero_le _) needs m.stack.topmost_zero rfl rfl rfl
        (.new allocated)
  | getField field =>
    obtain ⟨h, found, rest⟩ := Action.bind_eq_ok done
    obtain ⟨a, read, last⟩ := Action.bind_eq_ok rest
    cases last
    have above := lt_available_of_handleAt found
    rw [Heap.read_answer] at read
    exact performs_of_replaceTop wf current above above
      (OperandStack.topmost_one (handleAt_eq_ok found)) rfl rfl rfl (.getField read)
  | setField field =>
    obtain ⟨a, top, rest⟩ := Action.bind_eq_ok done
    obtain ⟨h, found, rest⟩ := Action.bind_eq_ok rest
    obtain ⟨_, heap, written, rfl⟩ := heapEffect_eq_ok rest
    have above := lt_available_of_handleAt found
    exact performs_of_replaceTop wf current above above
      (OperandStack.topmost_two top (handleAt_eq_ok found)) rfl rfl rfl (.setField written)
  | getIndex =>
    obtain ⟨index, found, rest⟩ := Action.bind_eq_ok done
    obtain ⟨h, handle, rest⟩ := Action.bind_eq_ok rest
    obtain ⟨a, read, last⟩ := Action.bind_eq_ok rest
    cases last
    obtain ⟨k, top, rfl⟩ := indexAt_eq_ok found
    have above := lt_available_of_handleAt handle
    rw [Heap.read_answer] at read
    -- a negative index would have named a field that no object is long enough to have
    have positive := addressable.of_read read
    rw [if_neg (by omega)] at read
    exact performs_of_replaceTop wf current above above
      (OperandStack.topmost_two top (handleAt_eq_ok handle)) rfl rfl rfl (.getIndex positive read)
  | setIndex =>
    obtain ⟨a, top, rest⟩ := Action.bind_eq_ok done
    obtain ⟨index, found, rest⟩ := Action.bind_eq_ok rest
    obtain ⟨h, handle, rest⟩ := Action.bind_eq_ok rest
    obtain ⟨_, heap, written, rfl⟩ := heapEffect_eq_ok rest
    obtain ⟨k, second, rfl⟩ := indexAt_eq_ok found
    have above := lt_available_of_handleAt handle
    have three : m.stack.topmost 3 = [.ref h, .int k, a] := by
      rw [OperandStack.topmost_succ (handleAt_eq_ok handle), OperandStack.topmost_two top second]
    have positive := addressable.of_write written
    rw [if_neg (by omega)] at written
    exact performs_of_replaceTop wf current above above three rfl rfl rfl
      (.setIndex positive written)
  | len =>
    obtain ⟨h, found, rest⟩ := Action.bind_eq_ok done
    obtain ⟨n, length, last⟩ := Action.bind_eq_ok rest
    cases last
    have above := lt_available_of_handleAt found
    rw [Heap.length_answer] at length
    exact performs_of_replaceTop wf current above above
      (OperandStack.topmost_one (handleAt_eq_ok found)) rfl rfl rfl (.len length)
  | free =>
    obtain ⟨h, found, rest⟩ := Action.bind_eq_ok done
    obtain ⟨_, heap, released, rfl⟩ := heapEffect_eq_ok rest
    have above := lt_available_of_handleAt found
    exact performs_of_replaceTop wf current above above
      (OperandStack.topmost_one (handleAt_eq_ok found)) rfl rfl rfl (.free released)
  | halt => cases goes []
  | jump target => cases goes []
  | branch sense target =>
    have jumps := goes [.ofBool sense]
    cases sense <;> cases jumps
  | call _ _ | ret _ => cases plain

theorem targetOf_eq_ok {target : UInt32} {offset : Nat} (done : m.targetOf target = .ok offset) :
    offset = target.toNat := by
  obtain ⟨_, _, last⟩ := Action.bind_eq_ok done
  cases last
  rfl

theorem effect_performs {next : Nat} (wf : m.stack.WellFormed)
    (current : m.calls.current? = some frame) (addressable : m.heap.Addressable)
    (plain : i.isPlain = true) (done : m.effect i next = .ok (control, m')) :
    ∃ rest taken given, Performs i m control m' rest taken given := by
  cases i with
  | nop =>
    cases done
    exact performs_of_idle wf current rfl rfl rfl .nop
  | halt =>
    cases done
    exact performs_of_idle wf current rfl rfl rfl .halt
  | jump target =>
    obtain ⟨offset, checked, last⟩ := Action.map_eq_ok done
    cases last
    rw [targetOf_eq_ok checked]
    exact performs_of_idle wf current rfl rfl rfl (.jump target)
  | branch sense target =>
    obtain ⟨v, found, rest⟩ := Action.bind_eq_ok done
    have above := OperandStack.lt_available_of_operand found
    have needs : (Instr.branch sense target).needs ≤ m.stack.available := by
      cases sense <;> exact above
    have top := OperandStack.topmost_one found
    by_cases jumps : v.isTruthy = sense
    · rw [if_pos jumps] at rest
      obtain ⟨offset, checked, last⟩ := Action.map_eq_ok rest
      cases last
      rw [targetOf_eq_ok checked]
      exact performs_of_replaceTop wf current above needs top rfl rfl
        (by simp [Instr.control, jumps]) (.branch sense target v)
    · rw [if_neg jumps] at rest
      cases rest
      exact performs_of_replaceTop wf current above needs top rfl rfl
        (by simp [Instr.control, jumps]) (.branch sense target v)
  | call _ _ | ret _ => cases plain
  | _ =>
    obtain ⟨after, changed, last⟩ := Action.map_eq_ok done
    cases last
    exact change_performs wf current addressable changed (fun _ => rfl) plain

end

/-- An instruction of a machine that was created and run trades the values on top of the stack as
its opcode says. The frames change by `store` alone, and the heap by the operation of the
instruction. A branch that is not taken does not look at its target. -/
theorem instruction_trades_top_values (made : create journal code config = .ok m₀)
    (reached : m₀.Reaches m) :
    (∀ i next control m', i.isPlain = true → exec i next m = .ok control m' →
      ∃ rest taken given, Performs i m control m' rest taken given) ∧
    (∀ i next more m', i.isPlain = true → m.code.decode m.ip = .ok (i, next) →
      cycle m = .ok more m' → ∃ control rest taken given,
        Performs i m control m' rest taken given ∧ m'.ip = control.landing next) ∧
    (∀ sense target next v, m.stack.operand 0 = .ok v → v.isTruthy ≠ sense →
      exec (.branch sense target) next m = .ok .proceed (m.replaceTop 1 #[])) := by
  have sound := (reached.safe made).thread
  have coherent : m.Coherent := sound.toCoherent
  have addressable := reached.addressable made
  obtain ⟨frame, current⟩ := CallStack.exists_current sound.rooted
  refine ⟨?_, ?_, ?_⟩
  · intro i next control m' plain done
    rw [exec_eq coherent] at done
    exact effect_performs coherent.stack current addressable plain (Action.settle_eq_ok done)
  · intro i next more m' plain decoded done
    obtain ⟨i', next', control, after, same, result, advanced⟩ := effect_of_cycle coherent done
    cases decoded.symm.trans same
    obtain ⟨rest, taken, given, performs⟩ :=
      effect_performs (m := m.note (.dispatched m.ip i m.stack.depth)) coherent.stack current
        addressable plain result
    exact ⟨control, rest, taken, given, performs.advance advanced⟩
  · intro sense target next v found untaken
    rw [exec_eq coherent]
    simp only [effect, found, bind, Except.bind, if_neg untaken]
    rfl

def small (program : List Instr) : Machine where
  stack := .empty 8
  calls := .root 4 2
  code := .encode program
  config := { Config.withLimits 8 4 64 with localsPerFrame := 2 }
  heap := .empty 64
  ip := 0
  phase := .ready
  counters := .zero
  journal := .empty none

def storing : Machine := small [.push 5, .new .record 2, .push 1, .push 9, .setIndex, .halt]

def atStore : Machine := (storing.runFor 4).2

theorem set_index_trades_three_values :
    create (.empty none) storing.code storing.config = .ok storing ∧ storing.Reaches atStore ∧
    (∃ control rest taken given,
      Performs .setIndex atStore control atStore.step.2 rest taken given ∧
      atStore.step.2.ip = control.landing 21) ∧
    (atStore.stack.values = #[.int 5, .ref ⟨0, 0⟩, .int 1, .int 9] ∧
      atStore.step.2.stack.values = #[.int 5]) ∧
    exec (.branch false 1000) 21 atStore = .ok .proceed (atStore.replaceTop 1 #[]) := by
  have made : create (.empty none) storing.code storing.config = .ok storing := rfl
  have reached : storing.Reaches atStore := .runFor 4 .refl
  have decoded : atStore.code.decode atStore.ip = .ok (.setIndex, 21) := by cbv
  have stored : cycle atStore = .ok true atStore.step.2 :=
    cycle_of_step (by decide +kernel) (by decide +kernel)
  obtain ⟨_, performs, untaken⟩ := instruction_trades_top_values made reached
  refine ⟨made, reached, performs .setIndex 21 true atStore.step.2 rfl decoded stored, ?_, ?_⟩
  · decide +kernel
  · exact untaken false 1000 21 (.int 9) (by decide +kernel) (by decide +kernel)

end Machine

end StackMachine
