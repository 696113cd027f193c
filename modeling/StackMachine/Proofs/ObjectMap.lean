import StackMachine.Proofs.Accounts

namespace StackMachine

def Object.items : Object → List Value
  | record fields => fields.toList
  | bytes payload => payload.toList.map fun b => .int (Int64.ofNat b.toNat)

namespace ObjectKind

def initial : ObjectKind → Value
  | record => .null
  | bytes => .int 0

def Takes : ObjectKind → Value → Prop
  | record, _ => True
  | bytes, v => ∃ n, v = .int n ∧ 0 ≤ n.toInt ∧ n.toInt ≤ 255

end ObjectKind

abbrev ObjectMap := Handle → Option (ObjectKind × List Value)

namespace ObjectMap

def read (objects : ObjectMap) (h : Handle) (field : Nat) : Except Fault Value :=
  match objects h with
  | none => .error (.invalidHandle h)
  | some (_, items) =>
    match items[field]? with
    | some v => .ok v
    | none => .error (.fieldOutOfRange field items.length)

def length (objects : ObjectMap) (h : Handle) : Except Fault Nat :=
  match objects h with
  | none => .error (.invalidHandle h)
  | some (_, items) => .ok items.length

def Accepts (objects : ObjectMap) (h : Handle) (field : Nat) (v : Value) : Prop :=
  ∃ kind items, objects h = some (kind, items) ∧ field < items.length ∧ kind.Takes v

def store (objects : ObjectMap) (h : Handle) (field : Nat) (v : Value) : ObjectMap :=
  Function.update objects h ((objects h).map fun (kind, items) => (kind, items.set field v))

theorem store_eq {objects : ObjectMap} {h : Handle} {kind : ObjectKind} {items : List Value}
    (present : objects h = some (kind, items)) (field : Nat) (v : Value) :
    objects.store h field v = Function.update objects h (some (kind, items.set field v)) := by
  rw [store, present]
  rfl

theorem read_store {objects : ObjectMap} {h : Handle} {field : Nat} {v : Value}
    (accepts : objects.Accepts h field v) (g : Handle) (i : Nat) :
    (objects.store h field v).read g i = if g = h ∧ i = field then .ok v else objects.read g i := by
  obtain ⟨kind, items, present, inside, _⟩ := accepts
  rw [store_eq present]
  by_cases here : g = h
  · subst here
    by_cases same : i = field
    · subst same
      simp [read, inside]
    · simp [read, present, same, List.getElem?_set_ne (Ne.symm same)]
  · simp [read, here]

theorem length_store (objects : ObjectMap) (h g : Handle) (field : Nat) (v : Value) :
    (objects.store h field v).length g = objects.length g := by
  by_cases here : g = h
  · subst here
    cases present : objects g with
    | none => simp [length, store, present]
    | some object => simp [length, store, present]
  · simp [length, store, here]

theorem kind_store (objects : ObjectMap) (h g : Handle) (field : Nat) (v : Value) :
    (objects.store h field v g).map Prod.fst = (objects g).map Prod.fst := by
  by_cases here : g = h
  · subst here
    simp [store, Function.comp_def]
  · simp [store, here]

end ObjectMap

namespace Object

theorem length_items (o : Object) : o.items.length = o.length := by
  cases o <;> simp [items, length]

theorem getElem?_items (o : Object) (i : Nat) : o.items[i]? = o.get? i := by
  cases o <;> simp [items, get?]

theorem kind_blank (kind : ObjectKind) (n : Nat) : (blank kind n).kind = kind := by
  cases kind <;> rfl

theorem length_blank (kind : ObjectKind) (n : Nat) : (blank kind n).length = n := by
  cases kind <;> simp [blank, length]

theorem items_blank (kind : ObjectKind) (n : Nat) :
    (blank kind n).items = List.replicate n kind.initial := by
  cases kind <;> simp [blank, items, ObjectKind.initial]

theorem byteOf_eq_ok {v : Value} {b : UInt8} (stored : byteOf v = .ok b) :
    v = .int (Int64.ofNat b.toNat) := by
  cases v with
  | int n =>
    simp only [byteOf] at stored
    split at stored
    · rename_i range
      have word : b.toNat = n.toInt.toNat := by
        have byte := Except.ok.inj stored
        rw [← byte, UInt8.toNat_ofNat']
        omega
      rw [word]
      apply congrArg Value.int
      apply Int64.toInt_inj.mp
      rw [Int64.toInt_ofNat_of_lt (by omega)]
      omega
    · cases stored
  | _ => cases stored

theorem exists_byteOf_iff (v : Value) : (∃ b, byteOf v = .ok b) ↔ ObjectKind.bytes.Takes v := by
  constructor
  · rintro ⟨b, stored⟩
    have bound := b.toNat_lt
    have value : (Int64.ofNat b.toNat).toInt = b.toNat := Int64.toInt_ofNat_of_lt (by omega)
    exact ⟨_, byteOf_eq_ok stored, by omega, by omega⟩
  · rintro ⟨n, rfl, low, high⟩
    have range : 0 ≤ n.toInt ∧ n.toInt < 256 := ⟨low, by omega⟩
    exact ⟨UInt8.ofNat n.toInt.toNat, by simp only [byteOf, range, and_self, ↓reduceIte]⟩

theorem checkStore_eq_ok_iff (o : Object) (i : Nat) (v : Value) :
    o.checkStore i v = .ok () ↔ i < o.length ∧ o.kind.Takes v := by
  by_cases inside : i < o.length
  · cases o with
    | record fields => simp [checkStore, inside, kind, ObjectKind.Takes]
    | bytes payload =>
      have takes := exists_byteOf_iff v
      simp only [checkStore, inside, ↓reduceIte, true_and, kind, ← takes]
      cases byteOf v <;> simp [Except.map]
  · simp [checkStore, inside]

theorem kind_put (o : Object) (i : Nat) (v : Value) : (o.put i v).kind = o.kind := by
  cases o with
  | record fields => rfl
  | bytes payload =>
    simp only [put]
    cases byteOf v <;> rfl

theorem length_put (o : Object) (i : Nat) (v : Value) : (o.put i v).length = o.length := by
  cases o with
  | record fields => simp [put, length]
  | bytes payload =>
    simp only [put]
    cases byteOf v <;> simp [length]

theorem items_put {o : Object} {i : Nat} {v : Value} (takes : o.kind.Takes v) :
    (o.put i v).items = o.items.set i v := by
  cases o with
  | record fields => simp [put, items]
  | bytes payload =>
    obtain ⟨b, stored⟩ := (exists_byteOf_iff v).mpr takes
    have value := byteOf_eq_ok stored
    simp only [put, stored, items, Array.toList_setIfInBounds, List.map_set]
    rw [← value]

end Object

namespace Heap

variable {heap heap' ready : Heap} {budget i field : Nat} {h : Handle} {v : Value}

def toMap (heap : Heap) : ObjectMap := fun h => (heap.get? h).map fun o => (o.kind, o.items)

theorem read_eq (h : Handle) (field : Nat) (heap : Heap) :
    read h field heap = Action.observe heap (heap.toMap.read h field) := by
  unfold read ObjectMap.read toMap
  cases heap.get? h with
  | none => rfl
  | some object =>
    simp only [Option.map_some, Object.getElem?_items, Object.length_items]
    cases object.get? field <;> rfl

theorem length_eq (h : Handle) (heap : Heap) :
    length h heap = Action.observe heap (heap.toMap.length h) := by
  unfold length ObjectMap.length toMap
  cases heap.get? h with
  | none => rfl
  | some object =>
    simp only [Option.map_some, Object.length_items]
    rfl

theorem isLive_eq (heap : Heap) (h : Handle) : heap.isLive h = (heap.toMap h).isSome := by
  rw [isLive, toMap, Option.isSome_map]

theorem exists_write_iff :
    (∃ heap', write h field v heap = .ok () heap') ↔ heap.toMap.Accepts h field v := by
  have checked : (∃ heap', write h field v heap = .ok () heap') ↔
      heap.checkWrite h field v = .ok () := by
    unfold write
    cases heap.checkWrite h field v <;> simp
  rw [checked]
  unfold checkWrite ObjectMap.Accepts toMap
  cases heap.get? h with
  | none => simp
  | some object => simp [Object.checkStore_eq_ok_iff, Object.length_items]

/-- A change of the slot of a live handle that keeps its generation, or empties it, is a change at
that handle alone: no other handle to the slot is live before or after. -/
theorem get?_modify {object : Option Object} {f : Slot → Slot}
    (found : heap.slots[h.index]? = some ⟨h.generation, object⟩)
    (modified : heap'.slots = heap.slots.modify h.index f)
    (current : (f ⟨h.generation, object⟩).generation = h.generation ∨
      (f ⟨h.generation, object⟩).object = none) :
    heap'.get? = Function.update heap.get? h (f ⟨h.generation, object⟩).object := by
  have after : heap'.slots[h.index]? = some (f ⟨h.generation, object⟩) := by
    rw [modified, Array.getElem?_modify, if_pos rfl, found, Option.map_some]
  funext g
  by_cases index : g.index = h.index
  · by_cases same : g = h
    · subst same
      rw [Function.update_self]
      simp only [get?, after]
      rcases current with generation | empty
      · rw [if_pos generation]
      · rw [empty, ite_self]
    · have other : h.generation ≠ g.generation :=
        fun generation => same (Handle.eq_of_fields index generation.symm)
      rw [Function.update_of_ne same]
      simp only [get?, index, after, found, if_neg other]
      rcases current with generation | empty
      · rw [generation, if_neg other]
      · rw [empty, ite_self]
  · have same : g ≠ h := fun equal => index (congrArg Handle.index equal)
    rw [Function.update_of_ne same]
    simp only [get?, modified, Array.getElem?_modify, if_neg (Ne.symm index)]

theorem Offers.get?_eq (offers : heap.Offers i ready) : ready.get? = heap.get? := by
  cases offers with
  | recycled _ => rfl
  | added _ _ =>
    funext g
    simp only [get?, Array.getElem?_push]
    by_cases last : g.index = heap.slots.size
    · simp [last, Slot.fresh]
    · simp only [if_neg last]

theorem allocate_get? (tidy : heap.Tidy) {kind : ObjectKind} {n : Nat}
    (done : allocate kind n heap = .ok h heap') :
    heap.get? h = none ∧ heap'.get? = Function.update heap.get? h (some (.blank kind n)) := by
  obtain ⟨_, ready, offers, vacant, rfl⟩ := allocate_eq_ok tidy done
  have modified : (place h.index (kind.charge n) (.blank kind n) ready).slots =
      ready.slots.modify h.index fun slot => { slot with object := some (.blank kind n) } := rfl
  rw [← offers.get?_eq]
  refine ⟨?_, get?_modify vacant modified (.inl rfl)⟩
  simp only [get?, vacant, ↓reduceIte]

theorem write_get? (done : write h field v heap = .ok () heap') :
    ∃ object, heap.get? h = some object ∧ object.checkStore field v = .ok () ∧
      heap'.get? = Function.update heap.get? h (some (object.put field v)) := by
  obtain ⟨object, present, checked, _, modified⟩ := write_eq_ok done
  exact ⟨object, present, checked, get?_modify (slot_of_get? present) modified (.inl rfl)⟩

theorem release_get? (done : release h heap = .ok () heap') :
    (∃ object, heap.get? h = some object) ∧
      heap'.get? = Function.update heap.get? h none := by
  obtain ⟨object, present, same⟩ := release_eq_ok done
  have modified : heap'.slots = heap.slots.modify h.index .vacate := by rw [same]
  exact ⟨⟨object, present⟩, get?_modify (slot_of_get? present) modified (.inr rfl)⟩

theorem clear_get? (heap : Heap) : heap.clear.get? = fun _ => none := by
  funext g
  simp only [get?, clear, Array.getElem?_map]
  cases heap.slots[g.index]? <;> simp [Slot.vacate]

theorem toMap_of_get? {object : Option Object}
    (changed : heap'.get? = Function.update heap.get? h object) :
    heap'.toMap = Function.update heap.toMap h (object.map fun o => (o.kind, o.items)) := by
  have composed (heap : Heap) :
      heap.toMap = (Option.map fun o : Object => (o.kind, o.items)) ∘ heap.get? := rfl
  rw [composed, composed, changed, Function.comp_update]

theorem write_toMap (done : write h field v heap = .ok () heap') :
    heap'.toMap = heap.toMap.store h field v := by
  obtain ⟨object, present, checked, changed⟩ := write_get? done
  obtain ⟨_, takes⟩ := (Object.checkStore_eq_ok_iff object field v).mp checked
  have entry : heap.toMap h = some (object.kind, object.items) := by rw [toMap, present]; rfl
  rw [toMap_of_get? changed, ObjectMap.store_eq entry, Option.map_some, Object.kind_put,
    Object.items_put takes]

theorem finite_live (heap : Heap) : {h | heap.toMap h ≠ none}.Finite := by
  let current (i : Nat) : Handle := ⟨i, (heap.slots.getD i .fresh).generation⟩
  have finite : (Set.image current (Set.Iio heap.slots.size)).Finite :=
    (Set.finite_Iio heap.slots.size).image current
  apply finite.subset
  intro h live
  obtain ⟨object, present⟩ : ∃ object, heap.get? h = some object := by
    cases found : heap.get? h with
    | none => simp [toMap, found] at live
    | some object => exact ⟨object, rfl⟩
  have slot := slot_of_get? present
  refine ⟨h.index, (Array.getElem?_eq_some_iff.mp slot).1, ?_⟩
  simp only [current, Array.getD_eq_getD_getElem?, slot, Option.getD_some]

theorem read_answer (h : Handle) (field : Nat) (heap : Heap) :
    (read h field).answer heap = heap.toMap.read h field :=
  Action.answer_of_observe (read_eq h field heap)

theorem length_answer (h : Handle) (heap : Heap) :
    (length h).answer heap = heap.toMap.length h :=
  Action.answer_of_observe (length_eq h heap)

theorem allocate_toMap (tidy : heap.Tidy) {kind : ObjectKind} {n : Nat}
    (done : allocate kind n heap = .ok h heap') :
    heap.toMap h = none ∧
      heap'.toMap = Function.update heap.toMap h (some (kind, List.replicate n kind.initial)) := by
  obtain ⟨absent, changed⟩ := allocate_get? tidy done
  have entry := toMap_of_get? changed
  rw [Option.map_some, Object.kind_blank, Object.items_blank] at entry
  exact ⟨by rw [toMap, absent]; rfl, entry⟩

theorem exists_release_iff :
    (∃ heap', release h heap = .ok () heap') ↔ heap.toMap h ≠ none := by
  unfold release toMap
  cases heap.get? h <;> simp

/-- After every history of operations the heap is a finite map from handles to objects. Reads,
lengths and liveness are those of the map; an allocation adds one new entry, a store changes one
element of one entry, a release removes one entry; and all else stays. -/
theorem heap_refines_object_map (built : Built budget heap) :
    {h | heap.toMap h ≠ none}.Finite ∧
    (∀ h field, read h field heap = Action.observe heap (heap.toMap.read h field)) ∧
    (∀ h, length h heap = Action.observe heap (heap.toMap.length h)) ∧
    (∀ h, heap.isLive h = (heap.toMap h).isSome) ∧
    (∀ kind n h heap', allocate kind n heap = .ok h heap' →
      heap.toMap h = none ∧
      heap'.toMap = Function.update heap.toMap h (some (kind, List.replicate n kind.initial)) ∧
      length h heap' = .ok n heap' ∧ ∀ i < n, read h i heap' = .ok kind.initial heap') ∧
    (∀ h field v, (∃ heap', write h field v heap = .ok () heap') ↔
      heap.toMap.Accepts h field v) ∧
    (∀ h field v heap', write h field v heap = .ok () heap' →
      heap'.toMap = heap.toMap.store h field v ∧ read h field heap' = .ok v heap' ∧
      (∀ g i, ¬ (g = h ∧ i = field) → (read g i).answer heap' = (read g i).answer heap) ∧
      (∀ g, (length g).answer heap' = (length g).answer heap ∧
        (heap'.toMap g).map Prod.fst = (heap.toMap g).map Prod.fst ∧
        heap'.isLive g = heap.isLive g) ∧
      heap'.live = heap.live ∧ heap'.bytesInUse = heap.bytesInUse ∧
      heap'.budget = heap.budget ∧ heap'.free = heap.free) ∧
    ((∀ h, (∃ heap', release h heap = .ok () heap') ↔ heap.toMap h ≠ none) ∧
      ∀ h heap', release h heap = .ok () heap' →
        heap'.toMap = Function.update heap.toMap h none) ∧
    heap.clear.toMap = (fun _ => none) ∧
    ∀ (op : Op) (e : Fault), op.fault? heap = some e → (op.apply heap).toMap = heap.toMap := by
  have tidy := built.balanced.toTidy
  refine ⟨finite_live heap, fun h field => read_eq h field heap, fun h => length_eq h heap,
    heap.isLive_eq, ?_, fun h field v => exists_write_iff, ?_,
    ⟨fun h => exists_release_iff, ?_⟩, ?_, ?_⟩
  · intro kind n h heap' done
    obtain ⟨absent, added⟩ := allocate_toMap tidy done
    refine ⟨absent, added, ?_, ?_⟩
    · rw [length_eq, added]
      simp [ObjectMap.length]
    · intro i inside
      rw [read_eq, added]
      simp [ObjectMap.read, inside]
  · intro h field v heap' done
    have accepts := exists_write_iff.mp ⟨heap', done⟩
    have stored := write_toMap done
    obtain ⟨_, _, _, rest, _⟩ := write_eq_ok done
    refine ⟨stored, ?_, ?_, ?_, ?_⟩
    · rw [read_eq, stored, ObjectMap.read_store accepts, if_pos ⟨rfl, rfl⟩]
      rfl
    · intro g i other
      rw [read_answer, read_answer, stored, ObjectMap.read_store accepts, if_neg other]
    · intro g
      have kind := heap.toMap.kind_store h g field v
      refine ⟨?_, ?_, ?_⟩
      · rw [length_answer, length_answer, stored, ObjectMap.length_store]
      · rw [stored, kind]
      · rw [isLive_eq, isLive_eq, stored, ← Option.isSome_map, kind, Option.isSome_map]
    · rw [rest]
      exact ⟨rfl, rfl, rfl, rfl⟩
  · intro h heap' done
    exact toMap_of_get? (release_get? done).2
  · funext g
    rw [toMap, clear_get?]
    rfl
  · intro op e failed
    rw [Op.apply_of_fault failed]

def recycledHeap : Heap :=
  (Op.allocate .bytes 2).apply ((Op.release ⟨0, 0⟩).apply
    ((Op.write ⟨0, 0⟩ 0 (.int 7)).apply ((Op.allocate .record 1).apply (.empty 64))))

theorem recycled_heap_refines_object_map :
    Built 64 recycledHeap ∧ recycledHeap.toMap ⟨0, 1⟩ = some (.bytes, [.int 0, .int 0]) ∧
      recycledHeap.toMap ⟨0, 0⟩ = none ∧
      (¬ ∃ heap', write ⟨0, 1⟩ 1 .null recycledHeap = .ok () heap') ∧
      ∃ heap', write ⟨0, 1⟩ 1 (.int 255) recycledHeap = .ok () heap' ∧
        read ⟨0, 1⟩ 1 heap' = .ok (.int 255) heap' ∧
        (read ⟨0, 1⟩ 0).answer heap' = (read ⟨0, 1⟩ 0).answer recycledHeap := by
  have built : Built 64 recycledHeap := .apply _ (.apply _ (.apply _ (.apply _ .empty)))
  have entry : recycledHeap.toMap ⟨0, 1⟩ = some (.bytes, [.int 0, .int 0]) := by decide +kernel
  obtain ⟨_, _, _, _, _, writes, written, _⟩ := heap_refines_object_map built
  have accepts : recycledHeap.toMap.Accepts ⟨0, 1⟩ 1 (.int 255) :=
    ⟨_, _, entry, by decide, 255, rfl, by decide, by decide⟩
  obtain ⟨heap', done⟩ := (writes ⟨0, 1⟩ 1 (.int 255)).mpr accepts
  obtain ⟨_, stored, others, _⟩ := written _ _ _ _ done
  refine ⟨built, entry, by decide +kernel, ?_, heap', done, stored, others _ _ (by decide)⟩
  rw [writes]
  rintro ⟨kind, items, same, _, takes⟩
  rw [entry] at same
  cases same
  obtain ⟨n, impossible, _⟩ := takes
  cases impossible

end Heap

end StackMachine
