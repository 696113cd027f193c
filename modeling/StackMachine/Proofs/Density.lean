import StackMachine.Proofs.Accounts

namespace StackMachine.Heap

variable {heap heap' : Heap} {budget t : Nat} {history : Nat → Op} {h : Handle}

/-- No slot has come to its last generation. -/
def Young (heap : Heap) : Prop := ∀ slot ∈ heap.slots, slot.generation < Slot.lastGeneration

theorem length_objects_le (heap : Heap) : heap.objects.length ≤ heap.slots.size :=
  List.length_filterMap_le _ _

theorem occupancy_eq_none_iff {i : Nat} : heap.occupancy i = none ↔ heap.slots.size ≤ i := by
  rw [occupancy, Option.map_eq_none_iff, Array.getElem?_eq_none_iff]

theorem size_eq_of_occupancy (same : ∀ i, heap'.occupancy i = heap.occupancy i) :
    heap'.slots.size = heap.slots.size := by
  apply Nat.le_antisymm
  · rw [← occupancy_eq_none_iff, same, occupancy_eq_none_iff]
  · rw [← occupancy_eq_none_iff, ← same, occupancy_eq_none_iff]

theorem length_objects_of_no_free (complete : heap.Complete) (young : heap.Young)
    (unlisted : heap.free = []) : heap.objects.length = heap.slots.size := by
  rw [length_objects, Array.countP_eq_size]
  intro slot member
  obtain ⟨i, inside, rfl⟩ := Array.getElem_of_mem member
  have found : heap.slots[i]? = some heap.slots[i] := Array.getElem?_eq_getElem inside
  by_contra empty
  have listed := complete.listed_slot found (by simpa using empty) (young _ member)
  rw [unlisted] at listed
  cases listed

theorem slots_of_allocate (tidy : heap.Tidy) {kind : ObjectKind} {n : Nat}
    (done : allocate kind n heap = .ok h heap') :
    (heap.free = h.index :: heap'.free ∧ heap'.slots.size = heap.slots.size) ∨
    (heap.free = [] ∧ heap'.free = [] ∧ h.index = heap.slots.size ∧
      heap'.slots.size = heap.slots.size + 1) := by
  obtain ⟨_, ready, offers, _, rfl⟩ := allocate_eq_ok tidy done
  generalize h.index = i at offers ⊢
  cases offers with
  | recycled listed => exact .inl ⟨listed, Array.size_modify⟩
  | added unlisted _ => exact .inr ⟨unlisted, unlisted, rfl, by simp [place]⟩

theorem size_of_step (balanced : heap.Balanced budget) (young : heap.Young) {op : Op}
    (step : op.Step heap heap') :
    heap'.slots.size = max heap'.objects.length heap.slots.size := by
  have room := heap'.length_objects_le
  cases step with
  | unchanged => omega
  | allocated done =>
    rcases slots_of_allocate balanced.toTidy done with ⟨_, size⟩ | ⟨unlisted, _, _, size⟩
    · omega
    · have full := length_objects_of_no_free balanced.complete young unlisted
      have more := (allocate_objects balanced.toTidy done).length_eq
      rw [List.length_cons] at more
      omega
  | written done =>
    obtain ⟨_, _, _, _, modified⟩ := write_eq_ok done
    have size : heap'.slots.size = heap.slots.size := by rw [modified, Array.size_modify]
    omega
  | released done =>
    obtain ⟨_, _, same⟩ := release_eq_ok done
    have size : heap'.slots.size = heap.slots.size := by rw [same, Array.size_modify]
    omega
  | cleared =>
    have size : heap.clear.slots.size = heap.slots.size := Array.size_map
    omega

theorem heapAt_balanced (budget : Nat) (history : Nat → Op) (t : Nat) :
    (heapAt budget history t).Balanced budget := by
  have built : Built budget (heapAt budget history t) := by
    induction t with
    | zero => exact .empty
    | succ t ih => exact .apply (history t) ih
  exact built.balanced

theorem size_heapAt_succ (young : (heapAt budget history t).Young) :
    (heapAt budget history (t + 1)).slots.size =
      max (heapAt budget history (t + 1)).objects.length (heapAt budget history t).slots.size :=
  size_of_step (heapAt_balanced budget history t) young (Op.step_apply _ (history t))

theorem size_heapAt_mono {s : Nat} (young : ∀ s ≤ t, (heapAt budget history s).Young)
    (before : s ≤ t) :
    (heapAt budget history s).slots.size ≤ (heapAt budget history t).slots.size := by
  induction t with
  | zero => rw [Nat.le_zero.mp before]
  | succ t ih =>
    by_cases last : s = t + 1
    · rw [last]
    · have earlier := ih (fun s below => young s (by omega)) (by omega)
      have grown := size_heapAt_succ (young t (by omega))
      omega

theorem size_heapAt_isGreatest (young : ∀ s ≤ t, (heapAt budget history s).Young) :
    IsGreatest ((fun s => (heapAt budget history s).objects.length) '' Set.Iic t)
      (heapAt budget history t).slots.size := by
  induction t with
  | zero =>
    have first : Set.Iic 0 = ({0} : Set Nat) := by
      ext s
      simp
    rw [first, Set.image_singleton]
    exact isGreatest_singleton
  | succ t ih =>
    have next : Set.Iic (t + 1) = insert (t + 1) (Set.Iic t) := Order.Iic_succ t
    rw [next, Set.image_insert_eq, size_heapAt_succ (young t (by omega))]
    exact (ih fun s below => young s (by omega)).insert _

theorem index_lt_of_issued (issued : IssuedAt budget history t h) :
    h.index < (heapAt budget history (t + 1)).slots.size := by
  have live := (isLive_heapAt_succ t).mpr (.inl issued)
  obtain ⟨object, present⟩ := Option.isSome_iff_exists.mp live
  exact (Array.getElem?_eq_some_iff.mp (slot_of_get? present)).1

theorem reuses_of_empty (balanced : heap.Balanced budget) (young : heap.Young) {slot : Slot}
    (member : slot ∈ heap.slots) (empty : slot.object = none) {kind : ObjectKind} {n : Nat}
    (done : allocate kind n heap = .ok h heap') :
    heap'.slots.size = heap.slots.size ∧
      ∃ old, heap.slots[h.index]? = some old ∧ old.object = none := by
  obtain ⟨i, inside, rfl⟩ := Array.getElem_of_mem member
  have found : heap.slots[i]? = some heap.slots[i] := Array.getElem?_eq_getElem inside
  have listed := balanced.complete.listed_slot found empty (young _ member)
  rcases slots_of_allocate balanced.toTidy done with ⟨first, size⟩ | ⟨unlisted, _⟩
  · exact ⟨size, balanced.toTidy.vacant_slot (by rw [first]; exact List.mem_cons_self)⟩
  · rw [unlisted] at listed
    cases listed

/-- Of a heap that had `first` slots when it was cleared, the slots below `n` have been taken
since then. -/
structure Refilled (first n : Nat) (heap : Heap) : Prop where
  free : heap.free = List.range' n (first - n)
  size : heap.slots.size = max first n

theorem clear_refilled (young : heap.Young) : heap.clear.Refilled heap.slots.size 0 := by
  have usable : ∀ i ∈ List.range heap.slots.size,
      decide ((heap.slots.getD i .fresh).generation < Slot.lastGeneration) = true := by
    intro i listed
    have inside := List.mem_range.mp listed
    rw [Array.getD_eq_getD_getElem?, Array.getElem?_eq_getElem inside, Option.getD_some]
    exact decide_eq_true (young _ (Array.getElem_mem inside))
  refine ⟨?_, ?_⟩
  · rw [clear, List.filter_eq_self.mpr usable]
    exact List.range_eq_range'
  · rw [clear, Array.size_map, Nat.max_zero]

theorem Refilled.allocate {first n : Nat} (refilled : heap.Refilled first n) (tidy : heap.Tidy)
    {kind : ObjectKind} {length : Nat} (done : allocate kind length heap = .ok h heap') :
    h.index = n ∧ heap'.Refilled first (n + 1) := by
  have free := refilled.free
  have size := refilled.size
  rcases slots_of_allocate tidy done with ⟨listed, same⟩ | ⟨unlisted, none_left, added, more⟩
  · cases left : first - n with
    | zero =>
      rw [left, listed] at free
      cases free
    | succ rest =>
      rw [left, listed, List.range'_succ, List.cons.injEq] at free
      have fewer : first - (n + 1) = rest := by omega
      exact ⟨free.1, by rw [fewer, free.2], by omega⟩
  · rw [unlisted, eq_comm, List.range'_eq_nil_iff] at free
    have fewer : first - (n + 1) = 0 := by omega
    exact ⟨by omega, by rw [fewer, none_left]; rfl, by omega⟩

theorem Refilled.apply {first n : Nat} (refilled : heap.Refilled first n) (tidy : heap.Tidy)
    (op : Op) (unrevoked : ∀ g, ¬ op.Revokes heap g) :
    (∀ g, ¬ op.Issues heap g) ∧ (op.apply heap).Refilled first n ∨
    ∃ h, (∀ g, op.Issues heap g ↔ g = h) ∧ h.index = n ∧
      (op.apply heap).Refilled first (n + 1) := by
  cases op.effect tidy with
  | keep never _ slots free =>
    exact .inl ⟨never, free.trans refilled.free, (size_eq_of_occupancy slots).trans refilled.size⟩
  | issue h exactly _ _ _ =>
    have issues := (exactly h).mpr rfl
    cases op with
    | allocate kind length =>
      obtain ⟨heap', done⟩ := issues
      have result : (Op.allocate kind length).apply heap = heap' := by
        simp only [Op.apply, done, Action.residue]
      rw [result]
      exact .inr ⟨h, exactly, refilled.allocate tidy done⟩
    | read | write | length | release | clear => exact issues.elim
  | revoke h _ exactly _ _ _ => exact absurd ((exactly h).mpr rfl) (unrevoked h)
  | clear _ always _ _ _ => exact absurd (always ⟨0, 0⟩) (unrevoked ⟨0, 0⟩)

def issuesBetween (budget : Nat) (history : Nat → Op) (c k : Nat) : Set Nat :=
  {j | c < j ∧ j < k ∧ ∃ g, IssuedAt budget history j g}

section

variable {c k : Nat}

theorem issuesBetween_succ_self : issuesBetween budget history c (c + 1) = ∅ := by
  ext j
  simp only [issuesBetween, Set.mem_ofPred_eq, Set.mem_empty_iff_false, iff_false]
  omega

theorem issuesBetween_succ_of_issued (after : c < k) (issued : IssuedAt budget history k h) :
    issuesBetween budget history c (k + 1) = insert k (issuesBetween budget history c k) := by
  ext j
  simp only [issuesBetween, Set.mem_ofPred_eq, Set.mem_insert_iff]
  constructor
  · rintro ⟨later, before, issues⟩
    by_cases now : j = k
    · exact .inl now
    · exact .inr ⟨later, by omega, issues⟩
  · rintro (rfl | ⟨later, before, issues⟩)
    · exact ⟨after, by omega, h, issued⟩
    · exact ⟨later, by omega, issues⟩

theorem issuesBetween_succ_of_not_issued (never : ∀ g, ¬ IssuedAt budget history k g) :
    issuesBetween budget history c (k + 1) = issuesBetween budget history c k := by
  ext j
  simp only [issuesBetween, Set.mem_ofPred_eq]
  constructor
  · rintro ⟨later, before, g, issued⟩
    have other : j ≠ k := by
      rintro rfl
      exact never g issued
    exact ⟨later, by omega, g, issued⟩
  · rintro ⟨later, before, issues⟩
    exact ⟨later, by omega, issues⟩

theorem ncard_issuesBetween_succ (after : c < k) (issued : IssuedAt budget history k h) :
    (issuesBetween budget history c (k + 1)).ncard =
      (issuesBetween budget history c k).ncard + 1 := by
  have finite : (issuesBetween budget history c k).Finite :=
    (Set.finite_Iio k).subset fun _ member => member.2.1
  rw [issuesBetween_succ_of_issued after issued]
  exact Set.ncard_insert_of_notMem (fun member => Nat.lt_irrefl k member.2.1) finite

/-- From a clear to the next operation that frees something, the slots below the number of the
allocations are taken. -/
theorem refilled_heapAt (cleared : history c = .clear) (young : (heapAt budget history c).Young)
    (after : c < k) (unrevoked : ∀ j, c < j → j < k → ∀ g, ¬ RevokedAt budget history j g) :
    (heapAt budget history k).Refilled (heapAt budget history c).slots.size
      (issuesBetween budget history c k).ncard := by
  induction k with
  | zero => omega
  | succ k ih =>
    by_cases now : c = k
    · subst now
      have result : heapAt budget history (c + 1) = (heapAt budget history c).clear := by
        rw [heapAt, cleared]
        rfl
      rw [issuesBetween_succ_self, Set.ncard_empty, result]
      exact clear_refilled young
    · have before : c < k := by omega
      have refilled := ih before fun j later earlier => unrevoked j later (by omega)
      rcases refilled.apply (heapAt_tidy budget history k) (history k)
          (unrevoked k before (by omega)) with ⟨never, same⟩ | ⟨h, exactly, _, more⟩
      · rw [issuesBetween_succ_of_not_issued never]
        exact same
      · rw [ncard_issuesBetween_succ before ((exactly h).mpr rfl)]
        exact more

theorem issued_after_clear (cleared : history c = .clear)
    (young : (heapAt budget history c).Young) (after : c < k)
    (unrevoked : ∀ j, c < j → j ≤ k → ∀ g, ¬ RevokedAt budget history j g)
    (issued : IssuedAt budget history k h) :
    h.index = (issuesBetween budget history c k).ncard ∧
      (heapAt budget history (k + 1)).slots.size =
        max (heapAt budget history c).slots.size (h.index + 1) := by
  have refilled := refilled_heapAt cleared young after fun j later earlier =>
    unrevoked j later (by omega)
  rcases refilled.apply (heapAt_tidy budget history k) (history k)
      (unrevoked k after (by omega)) with ⟨never, _⟩ | ⟨g, exactly, index, more⟩
  · exact absurd issued (never h)
  · have same := (exactly h).mp issued
    subst same
    exact ⟨index, by rw [index]; exact more.size⟩

end

/-- As long as no slot has come to its last generation, none is lost: there are as many slots as
there have been objects at one time, so each handle points below that peak. An allocation takes an
empty slot if there is one. After a clear the allocations take the slots in order, and new ones only
behind the old ones. -/
theorem slots_are_never_lost (budget : Nat) (history : Nat → Op) (t : Nat)
    (young : ∀ s ≤ t, ∀ slot ∈ (heapAt budget history s).slots, slot.generation < 2 ^ 32 - 1) :
    IsGreatest ((fun s => (heapAt budget history s).objects.length) '' Set.Iic t)
      (heapAt budget history t).slots.size ∧
    (∀ s h, s < t → IssuedAt budget history s h →
      h.index < (heapAt budget history t).slots.size) ∧
    (∀ s, s ≤ t → ∀ slot ∈ (heapAt budget history s).slots, slot.object = none →
      ∀ kind n h heap', allocate kind n (heapAt budget history s) = .ok h heap' →
        heap'.slots.size = (heapAt budget history s).slots.size ∧
          ∃ old, (heapAt budget history s).slots[h.index]? = some old ∧ old.object = none) ∧
    (∀ c k, c < k → k < t → history c = .clear →
      (∀ j, c < j → j ≤ k → ∀ g, ¬ RevokedAt budget history j g) →
      ∀ h, IssuedAt budget history k h →
        h.index = {j | c < j ∧ j < k ∧ ∃ g, IssuedAt budget history j g}.ncard ∧
        (heapAt budget history (k + 1)).slots.size =
          max (heapAt budget history c).slots.size (h.index + 1)) := by
  refine ⟨size_heapAt_isGreatest young, ?_, ?_, ?_⟩
  · intro s h before issued
    have first := index_lt_of_issued issued
    have later : (heapAt budget history (s + 1)).slots.size ≤ _ := size_heapAt_mono young before
    omega
  · intro s before slot member empty kind n h heap' done
    exact reuses_of_empty (heapAt_balanced budget history s) (young s before) member empty done
  · intro c k after before cleared unrevoked h issued
    exact issued_after_clear cleared (young c (by omega)) after unrevoked issued

def refilling (t : Nat) : Op :=
  match t with
  | 0 => .allocate .record 1
  | 1 => .allocate .bytes 3
  | 2 => .release ⟨0, 0⟩
  | 3 => .clear
  | 4 => .allocate .bytes 1
  | 5 => .allocate .record 2
  | 6 => .allocate .bytes 0
  | _ => .length ⟨0, 0⟩

theorem third_slot_added_after_clear :
    IsGreatest ((fun s => (heapAt 256 refilling s).objects.length) '' Set.Iic 7) 3 ∧
    (∃ h heap', allocate .record 1 (heapAt 256 refilling 3) = .ok h heap' ∧
      heap'.slots.size = 2) ∧
    IssuedAt 256 refilling 5 ⟨1, 1⟩ ∧ IssuedAt 256 refilling 6 ⟨2, 0⟩ ∧
    {j | 3 < j ∧ j < 6 ∧ ∃ g, IssuedAt 256 refilling j g}.ncard = 2 ∧
    (heapAt 256 refilling 3).slots.size = 2 ∧ (heapAt 256 refilling 7).slots.size = 3 := by
  have two : (heapAt 256 refilling 3).slots.size = 2 := by decide +kernel
  have three : (heapAt 256 refilling 7).slots.size = 3 := by decide +kernel
  obtain ⟨peak, _, reuses, inOrder⟩ := slots_are_never_lost 256 refilling 7 (by decide +kernel)
  have fifth : IssuedAt 256 refilling 5 ⟨1, 1⟩ := ⟨_, by cbv⟩
  have sixth : IssuedAt 256 refilling 6 ⟨2, 0⟩ := ⟨_, by cbv⟩
  have unrevoked : ∀ j, 3 < j → j ≤ 6 → ∀ g, ¬ RevokedAt 256 refilling j g := by
    intro j after before g
    interval_cases j <;> exact id
  obtain ⟨index, _⟩ := inOrder 3 6 (by omega) (by omega) rfl unrevoked ⟨2, 0⟩ sixth
  have allocates : ∃ h heap', allocate .record 1 (heapAt 256 refilling 3) = .ok h heap' :=
    (exists_allocate_iff .record 1).mpr (by decide +kernel)
  obtain ⟨h, heap', done⟩ := allocates
  have reused := reuses 3 (by omega) ⟨1, none⟩ (by decide +kernel) rfl .record 1 h heap' done
  exact ⟨three ▸ peak, ⟨h, heap', done, reused.1.trans two⟩, fifth, sixth, index.symm, two, three⟩

end StackMachine.Heap
