import StackMachine.Proofs.Faults
import StackMachine.Proofs.Integers

namespace StackMachine

def position (n : Int64) : Nat := if n.toInt < 0 then Heap.maxSize else n.toInt.toNat

theorem position_of_field {n : Int64} {k : UInt32} (same : (k.toNat : Int) = n.toInt) :
    position n = k.toNat := by
  have natural : ¬ n.toInt < 0 := by omega
  rw [position, if_neg natural]
  omega

theorem le_position {n : Int64} {length : Nat} (short : length < 2 ^ 32)
    (outside : ¬ (0 ≤ n.toInt ∧ n.toInt < length)) : length ≤ position n := by
  unfold position Heap.maxSize
  split <;> omega

namespace Heap

variable {heap : Heap} {object : Object} {h : Handle} {k : Nat} {v : Value}

inductive Refuses (heap : Heap) (h : Handle) (k : Nat) : Fault → Prop where
  | dead : heap.get? h = none → Refuses heap h k (.invalidHandle h)
  | outside {object : Object} : heap.get? h = some object → object.length ≤ k →
      Refuses heap h k (.fieldOutOfRange k object.length)

inductive RefusesStore (heap : Heap) (h : Handle) (k : Nat) (v : Value) : Fault → Prop where
  | access {e : Fault} : heap.Refuses h k e → RefusesStore heap h k v e
  | range {payload : Array UInt8} {n : Int64} : heap.get? h = some (.bytes payload) →
      v = .int n → ¬ (0 ≤ n.toInt ∧ n.toInt ≤ 255) →
      RefusesStore heap h k v (.typeMismatch "byte store (0..=255)" "int")
  | type {payload : Array UInt8} : heap.get? h = some (.bytes payload) → v.isInt = false →
      RefusesStore heap h k v (.typeMismatch "byte store" v.typeName)

theorem read_inside (present : heap.get? h = some object) (inside : k < object.length) :
    ∃ v, heap.toMap.read h k = .ok v := by
  have bound : k < object.items.length := by rwa [Object.length_items]
  refine ⟨object.items[k], ?_⟩
  simp only [ObjectMap.read, toMap, present, Option.map_some, List.getElem?_eq_getElem bound]

theorem read_outside (present : heap.get? h = some object) (outside : object.length ≤ k) :
    heap.toMap.read h k = .error (.fieldOutOfRange k object.length) := by
  have bound : object.items.length ≤ k := by rwa [Object.length_items]
  simp only [ObjectMap.read, toMap, present, Option.map_some, List.getElem?_eq_none bound,
    Object.length_items]

theorem checkWrite_outside (present : heap.get? h = some object) (outside : object.length ≤ k)
    (v : Value) : heap.checkWrite h k v = .error (.fieldOutOfRange k object.length) := by
  simp only [checkWrite, present, Object.checkStore, if_neg (Nat.not_lt.mpr outside)]

theorem read_failsOnly (heap : Heap) (h : Handle) (k : Nat) :
    FailsOnly (heap.Refuses h k) (heap.toMap.read h k) := by
  cases present : heap.get? h with
  | none =>
    rw [ObjectMap.read, toMap, present]
    exact .error (.dead present)
  | some object =>
    by_cases inside : k < object.length
    · obtain ⟨v, found⟩ := read_inside present inside
      rw [found]
      exact .ok v
    · rw [read_outside present (Nat.le_of_not_lt inside)]
      exact .error (.outside present (Nat.le_of_not_lt inside))

theorem byteOf_failsOnly {payload : Array UInt8} (present : heap.get? h = some (.bytes payload))
    (v : Value) : FailsOnly (heap.RefusesStore h k v) (Object.byteOf v) := by
  cases v with
  | int n =>
    unfold Object.byteOf
    dsimp only
    split
    · exact .ok _
    · exact .error (.range present rfl (by omega))
  | _ => exact .error (.type present rfl)

theorem checkWrite_failsOnly (heap : Heap) (h : Handle) (k : Nat) (v : Value) :
    FailsOnly (heap.RefusesStore h k v) (heap.checkWrite h k v) := by
  cases present : heap.get? h with
  | none =>
    rw [checkWrite, present]
    exact .error (.access (.dead present))
  | some object =>
    by_cases inside : k < object.length
    · rw [checkWrite, present]
      simp only [Object.checkStore, inside, ↓reduceIte]
      cases object with
      | record fields => exact .ok ()
      | bytes payload => exact (byteOf_failsOnly present v).map _
    · rw [checkWrite_outside present (Nat.le_of_not_lt inside)]
      exact .error (.access (.outside present (Nat.le_of_not_lt inside)))

theorem write_outcome (h : Handle) (k : Nat) (v : Value) (heap : Heap) :
    ∃ stored, (write h k v).outcome heap = (heap.checkWrite h k v).map fun _ => ((), stored) := by
  unfold Action.outcome write
  cases heap.checkWrite h k v with
  | ok done => exact ⟨_, rfl⟩
  | error e => exact ⟨heap, rfl⟩

end Heap

namespace Machine

variable {m m₀ : Machine} {i : Instr} {rest operands : List Value} {h : Handle} {n : Int64}
  {v : Value}

def offering (rest operands : List Value) (m : Machine) : Machine := m.withValues (rest ++ operands)

/-- The instruction succeeds, goes on behind itself, and leaves this heap, these values on the stack
and all else as it is; as the next instruction of the program it is completed. -/
structure Yields (i : Instr) (heap : Heap) (values : List Value) (m : Machine) : Prop where
  exec : ∀ next, Machine.exec i next m = .ok .proceed ({ m with heap := heap }.withValues values)
  cycle : ∀ next, m.code.decode m.ip = .ok (i, next) → ∃ more m',
    Machine.cycle m = .ok more m' ∧ m'.stack = (m.withValues values).stack ∧
      m'.calls = m.calls ∧ m'.heap = heap ∧ m'.ip = next

/-- The instruction succeeds with this heap and these values, or it fails with this fault. -/
def ComesOut (i : Instr) (r : Except Fault (Heap × List Value)) (m : Machine) : Prop :=
  match r with
  | .ok (heap, values) => m.Yields i heap values
  | .error e => m.Fails i e

theorem offers_offering (above : m.stack.floor ≤ rest.length) :
    (m.offering rest operands).Offers rest operands := by
  refine ⟨?_, above⟩
  simp [offering, withValues, OperandStack.toList]

theorem coherent_offering (coherent : m.Coherent) (above : m.stack.floor ≤ rest.length)
    (room : rest.length + operands.length ≤ m.stack.maxDepth) :
    (m.offering rest operands).Coherent := by
  have depth : (m.offering rest operands).stack.depth = rest.length + operands.length := by
    simp [offering, withValues, OperandStack.depth]
  refine ⟨⟨?_, ?_⟩, coherent.rooted, coherent.ascending, coherent.base_le⟩
  · rw [depth]
    exact above.trans (Nat.le_add_right _ _)
  · rw [depth]
    exact room

theorem Yields.not_fails {heap : Heap} {values : List Value} {e : Fault}
    (yields : m.Yields i heap values) : ¬ m.Fails i e := by
  intro fails
  have clash := (yields.exec 0).symm.trans (fails.exec 0)
  cases clash

section

variable (coherent : m.Coherent) (above : m.stack.floor ≤ rest.length)
include coherent above

theorem comesOut_of_effect {r : Except Fault (Heap × List Value)} (operands : List Value)
    (room : rest.length + operands.length ≤ m.stack.maxDepth)
    (result : ∀ (m' : Machine) next, m'.heap = m.heap → m'.Offers rest operands →
      m'.effect i next =
        r.map fun out => (.proceed, { m' with heap := out.1 }.withValues out.2)) :
    (m.offering rest operands).ComesOut i r := by
  have safely := coherent_offering coherent above room
  have offers : (m.offering rest operands).Offers rest operands := offers_offering above
  cases r with
  | ok out =>
    constructor
    · intro next
      rw [exec_eq safely, result (m.offering rest operands) next rfl offers]
      rfl
    · intro next decoded
      rw [cycle_eq safely decoded, result ((m.offering rest operands).note _) next rfl offers]
      exact ⟨_, _, rfl, rfl, rfl, rfl, rfl⟩
  | error e =>
    constructor
    · intro next
      rw [exec_eq safely, result (m.offering rest operands) next rfl offers]
      rfl
    · intro next decoded
      rw [cycle_eq safely decoded, result ((m.offering rest operands).note _) next rfl offers]
      exact ⟨_, rfl, rfl⟩

theorem comesOut_of_read {r : Except Fault Value} (operands : List Value)
    (room : rest.length + operands.length ≤ m.stack.maxDepth)
    (result : ∀ (m' : Machine) next, m'.heap = m.heap → m'.Offers rest operands →
      m'.effect i next = r.map fun v => (.proceed, m'.replaceTop operands.length #[v])) :
    (m.offering rest operands).ComesOut i (r.map fun v => (m.heap, rest ++ [v])) := by
  apply comesOut_of_effect coherent above operands room
  intro m' next heap offers
  rw [result m' next heap offers]
  cases r with
  | ok v => simp only [Except.map, offers.replaceTop, ← heap]
  | error e => rfl

theorem comesOut_of_write {r : Except Fault (Unit × Heap)} (operands : List Value)
    (room : rest.length + operands.length ≤ m.stack.maxDepth)
    (result : ∀ (m' : Machine) next, m'.heap = m.heap → m'.Offers rest operands →
      m'.effect i next = r.map fun out =>
        (.proceed, { m' with heap := out.2 }.replaceTop operands.length #[])) :
    (m.offering rest operands).ComesOut i (r.map fun out => (out.2, rest)) := by
  apply comesOut_of_effect coherent above operands room
  intro m' next heap offers
  rw [result m' next heap offers]
  cases r with
  | ok out =>
    have dropped := Offers.replaceTop (m := { m' with heap := out.2 }) offers #[]
    rw [List.append_nil] at dropped
    simp only [Except.map, dropped]
  | error e => rfl

theorem readThrough_comesOut {α : Type} (op : Opcode) (action : Handle → Action Heap α)
    (value : α → Value) (reads : ∀ (m' : Machine) next,
      m'.effect i next = (m'.readEffect op action value).map (.proceed, ·))
    (h : Handle) (room : rest.length + 1 ≤ m.stack.maxDepth) :
    (m.offering rest [.ref h]).ComesOut i
      ((((action h).answer m.heap).map value).map fun v => (m.heap, rest ++ [v])) := by
  apply comesOut_of_read coherent above [.ref h] room
  intro m' next heap offers
  have handle : m'.handleAt 0 op = .ok h := handleAt_of_ref (offers.operand rfl)
  rw [reads, readEffect]
  simp only [handle, heap, bind, Except.bind]
  cases (action h).answer m.heap <;> rfl

theorem getField_comesOut (h : Handle) (field : UInt32)
    (room : rest.length + 1 ≤ m.stack.maxDepth) :
    (m.offering rest [.ref h]).ComesOut (.getField field)
      ((m.heap.toMap.read h field.toNat).map fun v => (m.heap, rest ++ [v])) := by
  have result := readThrough_comesOut (i := .getField field) coherent above .getField
    (Heap.read · field.toNat) id (fun _ _ => rfl) h room
  rwa [Heap.read_answer, Except.map_id, id_eq] at result

theorem getIndex_comesOut (h : Handle) (n : Int64) (room : rest.length + 2 ≤ m.stack.maxDepth) :
    (m.offering rest [.ref h, .int n]).ComesOut .getIndex
      ((m.heap.toMap.read h (position n)).map fun v => (m.heap, rest ++ [v])) := by
  apply comesOut_of_read coherent above [.ref h, .int n] room
  intro m' next heap offers
  have index : m'.indexAt 0 .getIndex = .ok (position n) := indexAt_of_int (offers.operand rfl)
  have handle : m'.handleAt 1 .getIndex = .ok h := handleAt_of_ref (offers.operand rfl)
  unfold effect change
  simp only [index, handle, Heap.read_answer, heap, bind, Except.bind]
  cases m.heap.toMap.read h (position n) <;> rfl

theorem setField_comesOut (h : Handle) (field : UInt32) (v : Value)
    (room : rest.length + 2 ≤ m.stack.maxDepth) :
    (m.offering rest [.ref h, v]).ComesOut (.setField field)
      (((Heap.write h field.toNat v).outcome m.heap).map fun out => (out.2, rest)) := by
  apply comesOut_of_write coherent above [.ref h, v] room
  intro m' next heap offers
  have value : m'.stack.operand 0 = .ok v := offers.operand rfl
  have handle : m'.handleAt 1 .setField = .ok h := handleAt_of_ref (offers.operand rfl)
  unfold effect change
  simp only [value, handle, heapEffect, heap, bind, Except.bind]
  cases (Heap.write h field.toNat v).outcome m.heap <;> rfl

theorem setIndex_comesOut (h : Handle) (n : Int64) (v : Value)
    (room : rest.length + 3 ≤ m.stack.maxDepth) :
    (m.offering rest [.ref h, .int n, v]).ComesOut .setIndex
      (((Heap.write h (position n) v).outcome m.heap).map fun out => (out.2, rest)) := by
  apply comesOut_of_write coherent above [.ref h, .int n, v] room
  intro m' next heap offers
  have value : m'.stack.operand 0 = .ok v := offers.operand rfl
  have index : m'.indexAt 1 .setIndex = .ok (position n) := indexAt_of_int (offers.operand rfl)
  have handle : m'.handleAt 2 .setIndex = .ok h := handleAt_of_ref (offers.operand rfl)
  unfold effect change
  simp only [value, index, handle, heapEffect, heap, bind, Except.bind]
  cases (Heap.write h (position n) v).outcome m.heap <;> rfl

theorem len_comesOut (h : Handle) (room : rest.length + 1 ≤ m.stack.maxDepth) :
    (m.offering rest [.ref h]).ComesOut .len
      (((m.heap.toMap.length h).map fun k => Value.int (Int64.ofNat k)).map fun v =>
        (m.heap, rest ++ [v])) := by
  have result := readThrough_comesOut (i := .len) coherent above .len Heap.length
    (fun length => .int (Int64.ofNat length)) (fun _ _ => rfl) h room
  rwa [Heap.length_answer] at result

section

variable {object : Object} (present : m.heap.get? h = some object)
include present

theorem getIndex_outside (outside : object.length ≤ position n)
    (room : rest.length + 2 ≤ m.stack.maxDepth) :
    (m.offering rest [.ref h, .int n]).Fails .getIndex
      (.fieldOutOfRange (position n) object.length) := by
  have result := getIndex_comesOut coherent above h n room
  rwa [Heap.read_outside present outside] at result

theorem setIndex_outside (outside : object.length ≤ position n) (v : Value)
    (room : rest.length + 3 ≤ m.stack.maxDepth) :
    (m.offering rest [.ref h, .int n, v]).Fails .setIndex
      (.fieldOutOfRange (position n) object.length) := by
  have result := setIndex_comesOut coherent above h n v room
  obtain ⟨stored, checked⟩ := m.heap.write_outcome h (position n) v
  rwa [checked, Heap.checkWrite_outside present outside] at result

theorem getIndex_inside (inside : 0 ≤ n.toInt ∧ n.toInt < object.length)
    (room : rest.length + 2 ≤ m.stack.maxDepth) :
    ∃ v, (m.offering rest [.ref h, .int n]).Yields .getIndex m.heap (rest ++ [v]) := by
  have result := getIndex_comesOut coherent above h n room
  have natural : ¬ n.toInt < 0 := by omega
  have index : position n < object.length := by
    rw [position, if_neg natural]
    omega
  obtain ⟨v, found⟩ := Heap.read_inside present index
  rw [found] at result
  exact ⟨v, result⟩

theorem len_yields (room : rest.length + 1 ≤ m.stack.maxDepth) :
    (m.offering rest [.ref h]).Yields .len m.heap
      (rest ++ [.int (Int64.ofNat object.length)]) := by
  have result := len_comesOut coherent above h room
  have length : m.heap.toMap.length h = .ok object.length := by
    simp only [ObjectMap.length, Heap.toMap, present, Option.map_some, Object.length_items]
  rwa [length] at result

end

end

/-- A reference that the machine holds names no object that is too long for the code. -/
theorem Reaches.length_lt {journal : Journal} {code : Code} {config : Config}
    (made : create journal code config = .ok m₀) (reached : m₀.Reaches m) (held : m.Holds h)
    {object : Object} (present : m.heap.get? h = some object) : object.length < 2 ^ 32 := by
  obtain ⟨maker, kind, size, before, makes, after⟩ := reached.maker made held
  obtain ⟨coherent, tidy⟩ := before.coherent_tidy made
  obtain ⟨_, _, alike⟩ := makes.later coherent tidy after
  rw [(alike object present).2]
  exact size.toNat_lt

/-- Elements by index and by field, in a machine that was created and run and that holds `h`. With
the number of a field as the index the instructions come out alike: they leave the same heap and the
same stack, or fail with the same fault. An index outside a live object gets at nothing, and the
length of the object is the first one that is. -/
theorem indexed_access_agrees_with_fields {journal : Journal} {code : Code} {config : Config}
    (made : create journal code config = .ok m₀) (reached : m₀.Reaches m)
    (held : Value.ref h ∈ m.stack.values) (above : m.stack.floor ≤ rest.length) (n : Int64)
    (v : Value) :
    (∀ k : UInt32, (k.toNat : Int) = n.toInt → rest.length + 2 ≤ m.stack.maxDepth →
      ∃ r, (m.offering rest [.ref h, .int n]).ComesOut .getIndex r ∧
        (m.offering rest [.ref h]).ComesOut (.getField k) r ∧
        FailsOnly (m.heap.Refuses h k.toNat) r) ∧
    (∀ k : UInt32, (k.toNat : Int) = n.toInt → rest.length + 3 ≤ m.stack.maxDepth →
      ∃ r, (m.offering rest [.ref h, .int n, v]).ComesOut .setIndex r ∧
        (m.offering rest [.ref h, v]).ComesOut (.setField k) r ∧
        FailsOnly (m.heap.RefusesStore h k.toNat v) r) ∧
    ∀ object, m.heap.get? h = some object →
      (¬ (0 ≤ n.toInt ∧ n.toInt < object.length) →
        (rest.length + 2 ≤ m.stack.maxDepth →
          (m.offering rest [.ref h, .int n]).Fails .getIndex (.fieldOutOfRange
            (if n.toInt < 0 then 2 ^ 64 - 1 else n.toInt.toNat) object.length)) ∧
        (rest.length + 3 ≤ m.stack.maxDepth →
          (m.offering rest [.ref h, .int n, v]).Fails .setIndex (.fieldOutOfRange
            (if n.toInt < 0 then 2 ^ 64 - 1 else n.toInt.toNat) object.length))) ∧
      ∃ bound : Int64,
        (rest.length + 1 ≤ m.stack.maxDepth →
          (m.offering rest [.ref h]).Yields .len m.heap (rest ++ [.int bound])) ∧
        (rest.length + 2 ≤ m.stack.maxDepth → ∀ j : Int64,
          (∃ w, (m.offering rest [.ref h, .int j]).Yields .getIndex m.heap (rest ++ [w])) ↔
            0 ≤ j.toInt ∧ j.toInt < bound.toInt) := by
  obtain ⟨coherent, _⟩ := reached.coherent_tidy made
  refine ⟨?_, ?_, ?_⟩
  · intro k same room
    have index := getIndex_comesOut coherent above h n room
    rw [position_of_field same] at index
    have field := getField_comesOut coherent above h k (Nat.le_of_succ_le room)
    exact ⟨_, index, field, (m.heap.read_failsOnly h k.toNat).map _⟩
  · intro k same room
    have index := setIndex_comesOut coherent above h n v room
    have field := setField_comesOut coherent above h k v (Nat.le_of_succ_le room)
    obtain ⟨stored, checked⟩ := m.heap.write_outcome h k.toNat v
    rw [position_of_field same, checked] at index
    rw [checked] at field
    exact ⟨_, index, field, ((m.heap.checkWrite_failsOnly h k.toNat v).map _).map _⟩
  · intro object present
    have short : object.length < 2 ^ 32 := reached.length_lt made (.inl (.inl held)) present
    have fits : (Int64.ofNat object.length).toInt = object.length :=
      Int64.toInt_ofNat_of_lt (by omega)
    refine ⟨?_, Int64.ofNat object.length, len_yields coherent above present, ?_⟩
    · intro outside
      have beyond := le_position short outside
      exact ⟨getIndex_outside coherent above present beyond,
        setIndex_outside coherent above present beyond v⟩
    · intro room j
      rw [fits]
      constructor
      · rintro ⟨w, yields⟩
        by_contra outside
        exact yields.not_fails (getIndex_outside coherent above present
          (le_position short outside) room)
      · intro inside
        exact getIndex_inside coherent above present inside room

def indexing : Machine := small [.new .bytes 3, .push 2, .getIndex, .halt]

def atIndexing : Machine := (indexing.runFor 1).2

theorem last_byte_agrees_with_field :
    create (.empty none) indexing.code indexing.config = .ok indexing ∧
    indexing.Reaches atIndexing ∧
    (∃ r, (atIndexing.offering [] [.ref ⟨0, 0⟩, .int 2]).ComesOut .getIndex r ∧
      (atIndexing.offering [] [.ref ⟨0, 0⟩]).ComesOut (.getField 2) r) ∧
    (∃ r, (atIndexing.offering [] [.ref ⟨0, 0⟩, .int 2, .null]).ComesOut .setIndex r ∧
      (atIndexing.offering [] [.ref ⟨0, 0⟩, .null]).ComesOut (.setField 2) r) ∧
    (atIndexing.offering [] [.ref ⟨0, 0⟩, .int (-1)]).Fails .getIndex
      (.fieldOutOfRange 18446744073709551615 3) ∧
    (atIndexing.offering [] [.ref ⟨0, 0⟩, .int 3, .null]).Fails .setIndex
      (.fieldOutOfRange 3 3) := by
  have made : create (.empty none) indexing.code indexing.config = .ok indexing := rfl
  have reached : indexing.Reaches atIndexing := .runFor 1 .refl
  have held : Value.ref ⟨0, 0⟩ ∈ atIndexing.stack.values := by decide +kernel
  have above : atIndexing.stack.floor ≤ ([] : List Value).length := by decide +kernel
  have room : ([] : List Value).length + 3 ≤ atIndexing.stack.maxDepth := by decide +kernel
  have present : atIndexing.heap.get? ⟨0, 0⟩ = some (.bytes #[0, 0, 0]) := by decide +kernel
  have agrees := indexed_access_agrees_with_fields made reached held above
  obtain ⟨reads, writes, _⟩ := agrees 2 .null
  obtain ⟨r, index, field, _⟩ := reads 2 (by decide) (Nat.le_of_succ_le room)
  obtain ⟨w, setIndex, setField, _⟩ := writes 2 (by decide) room
  obtain ⟨_, _, negative⟩ := agrees (-1) .null
  obtain ⟨_, _, behind⟩ := agrees 3 .null
  have below := ((negative _ present).1 (by decide)).1 (Nat.le_of_succ_le room)
  have past := ((behind _ present).1 (by decide)).2 room
  exact ⟨made, reached, ⟨r, index, field⟩, ⟨w, setIndex, setField⟩, below, past⟩

end Machine

end StackMachine
