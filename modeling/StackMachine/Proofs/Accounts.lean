import StackMachine.Proofs.Handles

namespace StackMachine

def Object.footprint : Object → Nat
  | record fields => 16 + 16 * fields.size
  | bytes payload => 16 + payload.size

theorem Object.charge_eq_footprint (o : Object) : o.charge = o.footprint := by
  cases o with
  | record fields => rfl
  | bytes payload =>
    simp only [charge, ObjectKind.charge, kind, length, ObjectKind.elementCharge, Nat.one_mul,
      footprint, ObjectKind.headerCharge]

theorem Object.charge_eq_footprint_blank (kind : ObjectKind) (n : Nat) :
    kind.charge n = (blank kind n).footprint := by
  rw [← charge_eq_footprint]
  cases kind <;> simp [charge, blank, Object.kind, length]

theorem Object.footprint_put (o : Object) (i : Nat) (v : Value) :
    (o.put i v).footprint = o.footprint := by
  cases o with
  | record fields => simp [put, footprint]
  | bytes payload =>
    unfold put
    dsimp only
    split <;> simp [footprint]

namespace Heap

variable {heap heap' ready : Heap} {budget i : Nat} {h : Handle}

def objects (heap : Heap) : List Object := heap.slots.toList.filterMap Slot.object

theorem objects_modify {slot : Slot} {f : Slot → Slot} (found : heap.slots[i]? = some slot)
    (modified : heap'.slots = heap.slots.modify i f) :
    ∃ before after, heap.objects = before ++ slot.object.toList ++ after ∧
      heap'.objects = before ++ (f slot).object.toList ++ after := by
  obtain ⟨inside, here⟩ := Array.getElem?_eq_some_iff.mp found
  obtain ⟨older, same, newer, split, position, changed⟩ :=
    List.exists_of_modify f (l := heap.slots.toList) (i := i) inside
  have slot_eq : same = slot := by
    have entry : heap.slots.toList[i]? = some same := by
      rw [split, ← position]
      simp
    rw [Array.getElem?_toList, found] at entry
    exact (Option.some.inj entry).symm
  subst slot_eq
  have whole (s : Slot) : (older ++ s :: newer).filterMap Slot.object =
      older.filterMap Slot.object ++ s.object.toList ++ newer.filterMap Slot.object := by
    rw [List.filterMap_append, List.filterMap_cons, List.append_assoc]
    cases s.object <;> rfl
  refine ⟨older.filterMap Slot.object, newer.filterMap Slot.object, ?_, ?_⟩
  · rw [objects, split, whole]
  · rw [objects, modified, Array.toList_modify, changed, whole]

inductive Offers (heap : Heap) : Nat → Heap → Prop where
  | recycled {index : Nat} {rest : List Nat} : heap.free = index :: rest →
      Offers heap index { heap with free := rest }
  | added : heap.free = [] → heap.slots.size < maxSlots →
      Offers heap heap.slots.size { heap with slots := heap.slots.push .fresh }

theorem Offers.vacant (tidy : heap.Tidy) (offers : heap.Offers i ready) :
    ∃ generation, ready.slots[i]? = some ⟨generation, none⟩ := by
  cases offers with
  | recycled listed =>
    obtain ⟨generation, known⟩ := tidy.vacant i (by rw [listed]; exact List.mem_cons_self)
    obtain ⟨slot, found, tag⟩ := Option.map_eq_some_iff.mp known
    have empty : slot.object = none := by
      have unoccupied : slot.object.isSome = false := congrArg Prod.snd tag
      simpa using unoccupied
    refine ⟨slot.generation, ?_⟩
    rw [← empty]
    exact found
  | added _ _ => exact ⟨0, Array.getElem?_push_size⟩

theorem Offers.objects_eq (offers : heap.Offers i ready) : ready.objects = heap.objects := by
  cases offers with
  | recycled _ => rfl
  | added _ _ =>
    simp only [objects, Array.toList_push, List.filterMap_append]
    exact List.append_nil _

theorem Offers.kept (offers : heap.Offers i ready) {j : Nat} {slot : Slot}
    (found : heap.slots[j]? = some slot) : ready.slots[j]? = some slot := by
  cases offers with
  | recycled _ => exact found
  | added _ _ =>
    have inside := (Array.getElem?_eq_some_iff.mp found).1
    rw [Array.getElem?_push, if_neg (Nat.ne_of_lt inside)]
    exact found

theorem Offers.accounts (offers : heap.Offers i ready) :
    ready.live = heap.live ∧ ready.bytesInUse = heap.bytesInUse ∧
      ready.budget = heap.budget := by
  cases offers <;> exact ⟨rfl, rfl, rfl⟩

theorem allocate_eq_ok (tidy : heap.Tidy) {kind : ObjectKind} {n : Nat}
    (done : allocate kind n heap = .ok h heap') :
    (kind.charge n ≤ maxSize ∧ heap.bytesInUse + kind.charge n ≤ heap.budget) ∧
    ∃ ready, heap.Offers h.index ready ∧ ready.slots[h.index]? = some ⟨h.generation, none⟩ ∧
      heap' = place h.index (kind.charge n) (.blank kind n) ready := by
  simp only [allocate] at done
  split at done
  · cases done
  · split at done
    · cases done
    · rename_i fits affordable
      have bounds : kind.charge n ≤ maxSize ∧ heap.bytesInUse + kind.charge n ≤ heap.budget :=
        ⟨Nat.le_of_not_lt fits, Nat.le_of_not_lt affordable⟩
      split at done
      · rename_i index rest listed
        have offers : heap.Offers index { heap with free := rest } := .recycled listed
        obtain ⟨generation, vacant⟩ := offers.vacant tidy
        have current : (heap.slots.getD index .fresh).generation = generation := by
          rw [Array.getD_eq_getD_getElem?]
          exact congrArg (fun slot => (Option.getD slot Slot.fresh).generation) vacant
        cases done
        exact ⟨bounds, _, offers, current ▸ vacant, rfl⟩
      · rename_i exhausted
        split at done
        · cases done
        · rename_i room
          cases done
          exact ⟨bounds, _, .added exhausted (Nat.lt_of_not_le room), Array.getElem?_push_size, rfl⟩

theorem objects_place {generation charge : Nat} {object : Object}
    (vacant : heap.slots[i]? = some ⟨generation, none⟩) :
    (place i charge object heap).objects.Perm (object :: heap.objects) := by
  have modified : (place i charge object heap).slots =
      heap.slots.modify i fun slot => { slot with object := some object } := rfl
  obtain ⟨before, after, old, new⟩ := objects_modify vacant modified
  rw [old, new]
  simp

theorem allocate_objects (tidy : heap.Tidy) {kind : ObjectKind} {n : Nat}
    (done : allocate kind n heap = .ok h heap') :
    heap'.objects.Perm (.blank kind n :: heap.objects) := by
  obtain ⟨_, ready, offers, vacant, rfl⟩ := allocate_eq_ok tidy done
  rw [← offers.objects_eq]
  exact objects_place vacant

theorem slot_of_get? {object : Object} (present : heap.get? h = some object) :
    heap.slots[h.index]? = some ⟨h.generation, some object⟩ := by
  unfold get? at present
  cases found : heap.slots[h.index]? with
  | none =>
    rw [found] at present
    cases present
  | some slot =>
    obtain ⟨generation, content⟩ := slot
    simp only [found] at present
    split at present
    · rename_i current
      subst current
      rw [present]
    · cases present

theorem release_eq_ok (done : release h heap = .ok () heap') :
    ∃ object, heap.get? h = some object ∧
      heap' = { heap with
        slots := heap.slots.modify h.index .vacate
        free := if h.generation < Slot.lastGeneration then h.index :: heap.free else heap.free
        live := heap.live - 1
        bytesInUse := heap.bytesInUse - object.charge } := by
  unfold release at done
  split at done
  · cases done
  · rename_i object present
    cases done
    exact ⟨object, present, rfl⟩

theorem release_objects {object : Object} (present : heap.get? h = some object)
    (modified : heap'.slots = heap.slots.modify h.index .vacate) :
    heap.objects.Perm (object :: heap'.objects) := by
  obtain ⟨before, after, old, new⟩ := objects_modify (slot_of_get? present) modified
  rw [old, new]
  simp [Slot.vacate]

theorem write_eq_ok {field : Nat} {v : Value} (done : write h field v heap = .ok () heap') :
    ∃ object, heap.get? h = some object ∧ object.checkStore field v = .ok () ∧
      heap' = { heap with slots := heap'.slots } ∧
      heap'.slots = heap.slots.modify h.index fun slot =>
        { slot with object := slot.object.map (·.put field v) } := by
  unfold write at done
  split at done
  · cases done
  · rename_i checked
    cases done
    unfold checkWrite at checked
    split at checked
    · cases checked
    · rename_i object present
      exact ⟨object, present, checked, rfl, rfl⟩

/-- The counts of a heap are those of its objects, and the bytes are within the budget. -/
structure Counted (heap : Heap) : Prop where
  live : heap.live = heap.objects.length
  bytes : heap.bytesInUse = (heap.objects.map Object.footprint).sum
  within : heap.bytesInUse ≤ heap.budget

theorem Counted.allocate (counted : heap.Counted) (tidy : heap.Tidy) {kind : ObjectKind} {n : Nat}
    (done : allocate kind n heap = .ok h heap') :
    heap'.Counted ∧ heap'.live = heap.live + 1 ∧
      heap'.bytesInUse = heap.bytesInUse + (Object.blank kind n).footprint := by
  have more := allocate_objects tidy done
  have length := more.length_eq
  have total := (more.map Object.footprint).sum_nat
  obtain ⟨⟨_, affordable⟩, ready, offers, _, same⟩ := allocate_eq_ok tidy done
  obtain ⟨live, bytes, limit⟩ := offers.accounts
  have before := counted.live
  have charged := counted.bytes
  rw [Object.charge_eq_footprint_blank] at affordable
  have counts : heap'.live = heap.live + 1 ∧ heap'.budget = heap.budget ∧
      heap'.bytesInUse = heap.bytesInUse + (Object.blank kind n).footprint := by
    rw [same, ← Object.charge_eq_footprint_blank]
    simp only [place, live, bytes, limit, and_self]
  obtain ⟨more_live, same_budget, more_bytes⟩ := counts
  rw [List.length_cons] at length
  rw [List.map_cons, List.sum_cons] at total
  exact ⟨⟨by omega, by omega, by omega⟩, more_live, more_bytes⟩

theorem Counted.release (counted : heap.Counted) (done : release h heap = .ok () heap') :
    heap'.Counted ∧ heap'.live + 1 = heap.live ∧
      ∃ object, heap.get? h = some object ∧
        heap'.bytesInUse + object.footprint = heap.bytesInUse := by
  obtain ⟨object, present, same⟩ := release_eq_ok done
  have fewer := release_objects present (congrArg slots same)
  have length := fewer.length_eq
  have total := (fewer.map Object.footprint).sum_nat
  have before := counted.live
  have charged := counted.bytes
  have within := counted.within
  have live : heap'.live = heap.live - 1 := congrArg Heap.live same
  have bytes : heap'.bytesInUse = heap.bytesInUse - object.footprint := by
    rw [← Object.charge_eq_footprint]
    exact congrArg bytesInUse same
  have limit : heap'.budget = heap.budget := by rw [same]
  rw [List.length_cons] at length
  rw [List.map_cons, List.sum_cons] at total
  exact ⟨⟨by omega, by omega, by omega⟩, by omega, object, present, by omega⟩

theorem Counted.write (counted : heap.Counted) {field : Nat} {v : Value}
    (done : write h field v heap = .ok () heap') : heap'.Counted := by
  obtain ⟨object, present, _, same, modified⟩ := write_eq_ok done
  obtain ⟨before, after, old, new⟩ := objects_modify (slot_of_get? present) modified
  have live := counted.live
  have bytes := counted.bytes
  rw [old] at live bytes
  refine ⟨?_, ?_, ?_⟩
  · rw [new, same]
    simpa using live
  · rw [new, same]
    simpa [Object.footprint_put] using bytes
  · rw [same]
    exact counted.within

theorem objects_clear (heap : Heap) : heap.clear.objects = [] := by
  simp only [objects, clear, Array.toList_map, List.filterMap_map]
  exact List.filterMap_eq_nil_iff.mpr fun _ _ => rfl

theorem Counted.step (counted : heap.Counted) (tidy : heap.Tidy) {op : Op}
    (step : op.Step heap heap') : heap'.Counted := by
  cases step with
  | unchanged => exact counted
  | allocated done => exact (counted.allocate tidy done).1
  | written done => exact counted.write done
  | released done => exact (counted.release done).1
  | cleared =>
    have empty := objects_clear heap
    exact ⟨by rw [empty]; rfl, by rw [empty]; rfl, Nat.zero_le _⟩

theorem Op.Step.budget_eq (tidy : heap.Tidy) {op : Op} (step : op.Step heap heap') :
    heap'.budget = heap.budget := by
  cases step with
  | unchanged => rfl
  | allocated done =>
    obtain ⟨_, _, offers, _, same⟩ := allocate_eq_ok tidy done
    rw [same]
    exact offers.accounts.2.2
  | written done =>
    obtain ⟨_, _, _, same, _⟩ := write_eq_ok done
    rw [same]
  | released done =>
    obtain ⟨_, _, same⟩ := release_eq_ok done
    rw [same]
  | cleared => rfl

/-- Every empty slot that can be used again is listed. -/
def Complete (heap : Heap) : Prop :=
  ∀ i generation, heap.occupancy i = some (generation, false) →
    generation < Slot.lastGeneration → i ∈ heap.free

theorem Complete.apply (complete : heap.Complete) (tidy : heap.Tidy) (op : Op) :
    (op.apply heap).Complete := by
  intro i generation vacant usable
  cases op.effect tidy with
  | keep _ _ slots free =>
    rw [slots] at vacant
    rw [free]
    exact complete i generation vacant usable
  | issue h _ _ before slots =>
    rw [slots] at vacant
    by_cases here : i = h.index
    · rw [if_pos here] at vacant
      cases vacant
    · rw [if_neg here] at vacant
      have listed := complete i generation vacant usable
      rcases before with ⟨_, free⟩ | ⟨_, none, _⟩
      · rw [free] at listed
        exact (List.mem_cons.mp listed).resolve_left here
      · rw [none] at listed
        cases listed
  | revoke h _ _ _ slots free =>
    rw [slots] at vacant
    by_cases here : i = h.index
    · rw [if_pos here] at vacant
      have passed : Slot.later h.generation = generation :=
        congrArg Prod.fst (Option.some.inj vacant)
      have below : h.generation < Slot.lastGeneration := by
        by_contra last
        rw [Slot.later_of_last last] at passed
        omega
      rw [free, if_pos below, here]
      exact List.mem_cons_self
    · rw [if_neg here] at vacant
      have listed := complete i generation vacant usable
      rw [free]
      split
      · exact List.mem_cons_of_mem _ listed
      · exact listed
  | clear _ _ slots _ listed =>
    rw [slots] at vacant
    obtain ⟨⟨before, occupied⟩, known, same⟩ := Option.map_eq_some_iff.mp vacant
    have passed : Slot.later before = generation := congrArg Prod.fst same
    have below : before < Slot.lastGeneration := by
      by_contra last
      rw [Slot.later_of_last last] at passed
      omega
    exact (listed i).mpr ⟨before, occupied, known, below⟩

structure Balanced (budget : Nat) (heap : Heap) : Prop extends heap.Tidy, heap.Counted where
  complete : heap.Complete
  budget_eq : heap.budget = budget

theorem Built.balanced (built : Built budget heap) : heap.Balanced budget := by
  induction built with
  | empty =>
    have tidy : (Heap.empty budget).Tidy := ⟨List.nodup_nil, nofun⟩
    have counted : (Heap.empty budget).Counted := ⟨rfl, rfl, Nat.zero_le _⟩
    exact ⟨tidy, counted, nofun, rfl⟩
  | @apply heap op _ ih =>
    have step := op.step_apply heap
    exact ⟨ih.toTidy.apply op, ih.toCounted.step ih.toTidy step, ih.complete.apply ih.toTidy op,
      (step.budget_eq ih.toTidy).trans ih.budget_eq⟩

theorem occupancy_iff {generation : Nat} {occupied : Bool} :
    heap.occupancy i = some (generation, occupied) ↔
      ∃ slot, heap.slots[i]? = some slot ∧ slot.generation = generation ∧
        slot.object.isSome = occupied := by
  unfold occupancy
  rw [Option.map_eq_some_iff]
  simp only [Slot.tag, Prod.mk.injEq]

theorem Tidy.vacant_slot (tidy : heap.Tidy) (listed : i ∈ heap.free) :
    ∃ slot, heap.slots[i]? = some slot ∧ slot.object = none := by
  obtain ⟨generation, vacant⟩ := tidy.vacant i listed
  obtain ⟨slot, found, _, empty⟩ := occupancy_iff.mp vacant
  exact ⟨slot, found, by simpa using empty⟩

theorem Complete.listed_slot (complete : heap.Complete) {slot : Slot}
    (found : heap.slots[i]? = some slot) (empty : slot.object = none)
    (usable : slot.generation < Slot.lastGeneration) : i ∈ heap.free :=
  complete i slot.generation (occupancy_iff.mpr ⟨slot, found, rfl, by simp [empty]⟩) usable

theorem length_objects (heap : Heap) :
    heap.objects.length = heap.slots.countP fun slot => slot.object.isSome := by
  rw [objects, List.length_filterMap_eq_countP, ← Array.countP_toList]

theorem allocate_vacant (tidy : heap.Tidy) {kind : ObjectKind} {n : Nat}
    (done : allocate kind n heap = .ok h heap') {slot : Slot}
    (found : heap.slots[h.index]? = some slot) : slot.object = none := by
  obtain ⟨_, ready, offers, vacant, _⟩ := allocate_eq_ok tidy done
  rw [offers.kept found] at vacant
  exact congrArg Slot.object (Option.some.inj vacant)

theorem exists_allocate_iff (kind : ObjectKind) (n : Nat) :
    (∃ h heap', allocate kind n heap = .ok h heap') ↔
      kind.charge n ≤ maxSize ∧ heap.bytesInUse + kind.charge n ≤ heap.budget ∧
        (heap.free ≠ [] ∨ heap.slots.size < maxSlots) := by
  by_cases fits : maxSize < kind.charge n
  · simp [allocate, fits]
  by_cases affordable : heap.budget < heap.bytesInUse + kind.charge n
  · simp [allocate, fits, affordable]
  have bounds := And.intro (Nat.le_of_not_lt fits) (Nat.le_of_not_lt affordable)
  cases listed : heap.free with
  | cons index rest => simp [allocate, fits, affordable, listed, bounds]
  | nil =>
    by_cases full : maxSlots ≤ heap.slots.size
    · simp [allocate, fits, affordable, listed, full]
    · have room : heap.slots.size < maxSlots := Nat.lt_of_not_le full
      simp [allocate, fits, affordable, listed, full, bounds, room]

/-- The books of a heap are those of its slots after every history of operations. So no allocation
finds its slot occupied, no count goes below zero or past a machine word, an allocation succeeds
exactly when the budget and the slots allow it, and an operation that fails changes nothing. -/
theorem books_agree_with_slots (built : Built budget heap) :
    (heap.free.Nodup ∧
      (∀ i ∈ heap.free, ∃ slot, heap.slots[i]? = some slot ∧ slot.object = none) ∧
      ∀ (i : Nat) (slot : Slot), heap.slots[i]? = some slot → slot.object = none →
        slot.generation < 2 ^ 32 - 1 → i ∈ heap.free) ∧
    heap.live = heap.slots.countP (fun slot => slot.object.isSome) ∧
    (heap.bytesInUse = (heap.objects.map Object.footprint).sum ∧ heap.bytesInUse ≤ budget) ∧
    (∀ kind n h heap', allocate kind n heap = .ok h heap' →
      (∀ slot, heap.slots[h.index]? = some slot → slot.object = none) ∧
      heap'.bytesInUse = heap.bytesInUse + (Object.blank kind n).footprint ∧
      heap'.bytesInUse ≤ budget ∧ (budget < 2 ^ 64 → heap'.bytesInUse < 2 ^ 64)) ∧
    (∀ h heap', release h heap = .ok () heap' →
      heap'.live + 1 = heap.live ∧ ∃ object, heap.get? h = some object ∧
        heap'.bytesInUse + object.footprint = heap.bytesInUse) ∧
    (∀ kind n, (∃ h heap', allocate kind n heap = .ok h heap') ↔
      (Object.blank kind n).footprint < 2 ^ 64 ∧
        heap.bytesInUse + (Object.blank kind n).footprint ≤ budget ∧
        (heap.free ≠ [] ∨ heap.slots.size < 2 ^ 32)) ∧
    ∀ (op : Op) (e : Fault), op.fault? heap = some e → op.apply heap = heap := by
  have balanced := built.balanced
  have tidy := balanced.toTidy
  have counted := balanced.toCounted
  have limit := balanced.budget_eq
  have within := counted.within
  refine ⟨⟨tidy.nodup, fun i => tidy.vacant_slot, ?_⟩, ?_, ⟨counted.bytes, by omega⟩, ?_, ?_, ?_,
    fun op e => Op.apply_of_fault⟩
  · intro i slot found empty usable
    exact balanced.complete.listed_slot found empty usable
  · rw [counted.live, length_objects]
  · intro kind n h heap' done
    obtain ⟨after, _, bytes⟩ := counted.allocate tidy done
    obtain ⟨⟨_, affordable⟩, _⟩ := allocate_eq_ok tidy done
    rw [Object.charge_eq_footprint_blank] at affordable
    exact ⟨fun slot => allocate_vacant tidy done, bytes, by omega, by omega⟩
  · intro h heap' done
    exact (counted.release done).2
  · intro kind n
    have word : (Object.blank kind n).footprint < 2 ^ 64 ↔
        (Object.blank kind n).footprint ≤ maxSize := by
      unfold maxSize
      omega
    rw [exists_allocate_iff, Object.charge_eq_footprint_blank, limit, word]
    rfl

/-- A heap of 64 bytes after two allocations, the first of which is freed again. -/
def freedHeap : Heap :=
  (Op.release ⟨0, 0⟩).apply ((Op.allocate .bytes 3).apply ((Op.allocate .record 1).apply (.empty 64)))

theorem freed_heap_books_agree :
    Built 64 freedHeap ∧ freedHeap.free = [0] ∧ freedHeap.free.Nodup ∧
      freedHeap.live = freedHeap.slots.countP (fun slot => slot.object.isSome) ∧
      freedHeap.bytesInUse = 19 ∧ (freedHeap.objects.map Object.footprint).sum = 19 ∧
      (∃ h heap', allocate .bytes 29 freedHeap = .ok h heap') ∧
      (¬ ∃ h heap', allocate .bytes 30 freedHeap = .ok h heap') ∧
      (Op.release ⟨0, 0⟩).apply freedHeap = freedHeap := by
  have built : Built 64 freedHeap := .apply _ (.apply _ (.apply _ .empty))
  obtain ⟨⟨nodup, _, _⟩, live, ⟨bytes, _⟩, _, _, allocates, unchanged⟩ :=
    books_agree_with_slots built
  have total : freedHeap.bytesInUse = 19 := by decide +kernel
  refine ⟨built, by decide +kernel, nodup, live, total, bytes ▸ total, ?_, ?_, ?_⟩
  · exact (allocates .bytes 29).mpr (by decide +kernel)
  · rw [allocates]
    decide +kernel
  · exact unchanged _ (.invalidHandle ⟨0, 0⟩) (by decide +kernel)

end Heap

end StackMachine
