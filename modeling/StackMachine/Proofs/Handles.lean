import StackMachine.Proofs.Heap

namespace StackMachine

theorem Handle.eq_of_fields {g h : Handle} (index : g.index = h.index)
    (generation : g.generation = h.generation) : g = h := by
  cases g
  cases h
  cases index
  cases generation
  rfl

def Slot.tag (slot : Slot) : Nat × Bool := (slot.generation, slot.object.isSome)

def Slot.later (generation : Nat) : Nat :=
  if generation < lastGeneration then generation + 1 else generation

theorem Slot.lt_later {generation : Nat} (below : generation < lastGeneration) :
    generation < later generation := by
  rw [later, if_pos below]
  omega

theorem Slot.later_of_last {generation : Nat} (last : ¬ generation < lastGeneration) :
    later generation = generation := if_neg last

namespace Heap

def occupancy (heap : Heap) (i : Nat) : Option (Nat × Bool) := heap.slots[i]?.map Slot.tag

theorem isLive_iff {heap : Heap} {h : Handle} :
    heap.isLive h = true ↔ heap.occupancy h.index = some (h.generation, true) := by
  unfold isLive get? occupancy
  cases heap.slots[h.index]? with
  | none => simp
  | some slot =>
    by_cases same : slot.generation = h.generation
    · simp [same, Slot.tag]
    · simp [same, Slot.tag]

theorem occupancy_getD {heap : Heap} {i generation : Nat} {occupied : Bool}
    (known : heap.occupancy i = some (generation, occupied)) :
    (heap.slots.getD i .fresh).generation = generation := by
  obtain ⟨slot, found, same⟩ := Option.map_eq_some_iff.mp known
  rw [Array.getD_eq_getD_getElem?, found]
  exact congrArg Prod.fst same

namespace Op

def Issues (heap : Heap) (h : Handle) : Op → Prop
  | allocate kind n => ∃ heap', Heap.allocate kind n heap = .ok h heap'
  | _ => False

def Revokes (heap : Heap) (h : Handle) : Op → Prop
  | release g => g = h ∧ ∃ heap', Heap.release h heap = .ok () heap'
  | clear => True
  | _ => False

/-- What an operation can do to the slots and to the list of the free ones. -/
inductive Effect (op : Op) (heap heap' : Heap) : Prop where
  | keep : (∀ g, ¬ op.Issues heap g) → (∀ g, ¬ op.Revokes heap g) →
      (∀ i, heap'.occupancy i = heap.occupancy i) → heap'.free = heap.free → Effect op heap heap'
  | issue (h : Handle) : (∀ g, op.Issues heap g ↔ g = h) → (∀ g, ¬ op.Revokes heap g) →
      (heap.occupancy h.index = some (h.generation, false) ∧
          heap.free = h.index :: heap'.free ∨
        heap.occupancy h.index = none ∧ heap.free = [] ∧ heap'.free = []) →
      (∀ i, heap'.occupancy i =
        if i = h.index then some (h.generation, true) else heap.occupancy i) →
      Effect op heap heap'
  | revoke (h : Handle) : (∀ g, ¬ op.Issues heap g) → (∀ g, op.Revokes heap g ↔ g = h) →
      heap.occupancy h.index = some (h.generation, true) →
      (∀ i, heap'.occupancy i =
        if i = h.index then some (Slot.later h.generation, false) else heap.occupancy i) →
      heap'.free =
        (if h.generation < Slot.lastGeneration then h.index :: heap.free else heap.free) →
      Effect op heap heap'
  | clear : (∀ g, ¬ op.Issues heap g) → (∀ g, op.Revokes heap g) →
      (∀ i, heap'.occupancy i =
        (heap.occupancy i).map fun slot => (Slot.later slot.1, false)) →
      heap'.free.Nodup →
      (∀ i, i ∈ heap'.free ↔ ∃ generation occupied,
        heap.occupancy i = some (generation, occupied) ∧ generation < Slot.lastGeneration) →
      Effect op heap heap'

end Op

/-- The free slots are slots without an object, and each is listed once. -/
structure Tidy (heap : Heap) : Prop where
  nodup : heap.free.Nodup
  vacant : ∀ i ∈ heap.free, ∃ generation, heap.occupancy i = some (generation, false)

/-- No allocation can return the handle any more. -/
def Used (heap : Heap) (h : Handle) : Prop :=
  ∃ generation occupied, heap.occupancy h.index = some (generation, occupied) ∧
    (h.generation < generation ∨ h.generation = generation ∧ h.index ∉ heap.free)

variable {heap heap' : Heap}

theorem Tidy.unlisted (tidy : heap.Tidy) {i generation : Nat}
    (occupied : heap.occupancy i = some (generation, true)) : i ∉ heap.free := by
  intro listed
  obtain ⟨_, vacant⟩ := tidy.vacant i listed
  rw [occupied] at vacant
  cases vacant

theorem occupancy_modify (slots : Array Slot) (i j : Nat) (f : Slot → Slot) :
    (slots.modify j f)[i]?.map Slot.tag =
      if i = j then slots[i]?.map fun slot => (f slot).tag else slots[i]?.map Slot.tag := by
  rw [Array.getElem?_modify]
  by_cases here : i = j
  · subst here
    simp [Function.comp_def]
  · rw [if_neg here, if_neg (Ne.symm here)]

theorem allocate_effect (tidy : heap.Tidy) {kind : ObjectKind} {n : Nat} {h : Handle}
    (done : allocate kind n heap = .ok h heap') :
    (heap.occupancy h.index = some (h.generation, false) ∧ heap.free = h.index :: heap'.free ∨
      heap.occupancy h.index = none ∧ heap.free = [] ∧ heap'.free = []) ∧
    ∀ i, heap'.occupancy i =
      if i = h.index then some (h.generation, true) else heap.occupancy i := by
  simp only [allocate] at done
  split at done
  · cases done
  · split at done
    · cases done
    · split at done
      · rename_i index rest listed
        obtain ⟨generation, vacant⟩ := tidy.vacant index (by rw [listed]; simp)
        have current := occupancy_getD vacant
        cases done
        refine ⟨.inl ⟨?_, listed⟩, ?_⟩
        · rw [current]
          exact vacant
        · intro i
          simp only [occupancy, place, occupancy_modify]
          by_cases here : i = index
          · subst here
            obtain ⟨slot, found, same⟩ := Option.map_eq_some_iff.mp vacant
            simp [found, Slot.tag]
          · rw [if_neg here, if_neg here]
      · rename_i none_listed
        split at done
        · cases done
        · cases done
          refine ⟨.inr ⟨?_, none_listed, none_listed⟩, ?_⟩
          · simp [occupancy]
          · intro i
            simp only [occupancy, place, occupancy_modify]
            by_cases here : i = heap.slots.size
            · subst here
              simp [Slot.fresh, Slot.tag]
            · rw [if_neg here, if_neg here, Array.getElem?_push, if_neg here]

theorem release_effect {h : Handle} (done : release h heap = .ok () heap') :
    heap.occupancy h.index = some (h.generation, true) ∧
    (∀ i, heap'.occupancy i =
      if i = h.index then some (Slot.later h.generation, false) else heap.occupancy i) ∧
    heap'.free =
      (if h.generation < Slot.lastGeneration then h.index :: heap.free else heap.free) := by
  simp only [release] at done
  split at done
  · cases done
  · rename_i object present
    have live : heap.isLive h = true := by rw [isLive, present]; rfl
    have occupied := isLive_iff.mp live
    cases done
    refine ⟨occupied, ?_, rfl⟩
    intro i
    simp only [occupancy, occupancy_modify]
    by_cases here : i = h.index
    · subst here
      obtain ⟨slot, found, same⟩ := Option.map_eq_some_iff.mp occupied
      have current : slot.generation = h.generation := congrArg Prod.fst same
      rw [if_pos rfl, if_pos rfl, found, ← current]
      rfl
    · rw [if_neg here, if_neg here]

theorem write_effect {h : Handle} {field : Nat} {v : Value}
    (done : write h field v heap = .ok () heap') :
    (∀ i, heap'.occupancy i = heap.occupancy i) ∧ heap'.free = heap.free := by
  unfold write at done
  split at done
  · cases done
  · cases done
    refine ⟨?_, rfl⟩
    intro i
    simp only [occupancy, occupancy_modify]
    split
    · simp only [Slot.tag, Option.isSome_map]
      rfl
    · rfl

theorem clear_effect (heap : Heap) :
    (∀ i, heap.clear.occupancy i =
      (heap.occupancy i).map fun slot => (Slot.later slot.1, false)) ∧
    heap.clear.free.Nodup ∧
    ∀ i, i ∈ heap.clear.free ↔ ∃ generation occupied,
      heap.occupancy i = some (generation, occupied) ∧ generation < Slot.lastGeneration := by
  refine ⟨?_, ?_, ?_⟩
  · intro i
    simp only [occupancy, clear, Array.getElem?_map, Option.map_map]
    rfl
  · exact List.nodup_range.filter _
  · intro i
    simp only [clear, List.mem_filter, List.mem_range, decide_eq_true_eq]
    constructor
    · rintro ⟨inside, below⟩
      have known : heap.occupancy i =
          some (heap.slots[i].generation, heap.slots[i].object.isSome) := by
        simp [occupancy, Slot.tag, inside]
      rw [occupancy_getD known] at below
      exact ⟨_, _, known, below⟩
    · rintro ⟨generation, occupied, known, below⟩
      refine ⟨?_, ?_⟩
      · obtain ⟨slot, found, _⟩ := Option.map_eq_some_iff.mp known
        exact (Array.getElem?_eq_some_iff.mp found).1
      · rw [occupancy_getD known]
        exact below

theorem Op.effect (tidy : heap.Tidy) (op : Op) : op.Effect heap (op.apply heap) := by
  cases op with
  | allocate kind n =>
    cases result : Heap.allocate kind n heap with
    | ok h heap' =>
      obtain ⟨before, after⟩ := allocate_effect tidy result
      simp only [apply, result, Action.residue]
      refine .issue h ?_ (fun _ revoked => revoked) before after
      intro g
      simp only [Issues, result]
      constructor
      · rintro ⟨_, same⟩
        cases same
        rfl
      · rintro rfl
        exact ⟨heap', rfl⟩
    | error e heap' =>
      have same := (allocate_atomic kind n heap).eq_of_error result
      simp only [apply, result, Action.residue, same]
      exact .keep (by simp [Issues, result]) (fun _ revoked => revoked) (fun _ => rfl) rfl
  | read h field =>
    have same : (read h field).apply heap = heap := by
      rw [apply, read_readOnly]
      exact Action.residue_observe _ _
    rw [same]
    exact .keep (fun _ issued => issued) (fun _ revoked => revoked) (fun _ => rfl) rfl
  | write h field v =>
    cases result : Heap.write h field v heap with
    | ok done heap' =>
      obtain ⟨slots, free⟩ := write_effect result
      simp only [apply, result, Action.residue]
      exact .keep (fun _ issued => issued) (fun _ revoked => revoked) slots free
    | error e heap' =>
      have same := (write_atomic h field v heap).eq_of_error result
      simp only [apply, result, Action.residue, same]
      exact .keep (fun _ issued => issued) (fun _ revoked => revoked) (fun _ => rfl) rfl
  | length h =>
    have same : (length h).apply heap = heap := by
      rw [apply, length_readOnly]
      exact Action.residue_observe _ _
    rw [same]
    exact .keep (fun _ issued => issued) (fun _ revoked => revoked) (fun _ => rfl) rfl
  | release h =>
    cases result : Heap.release h heap with
    | ok done heap' =>
      obtain ⟨occupied, slots, free⟩ := release_effect result
      simp only [apply, result, Action.residue]
      refine .revoke h (fun _ issued => issued) ?_ occupied slots free
      intro g
      constructor
      · intro revoked
        exact revoked.1.symm
      · rintro rfl
        exact ⟨rfl, heap', result⟩
    | error e heap' =>
      have same := (release_atomic h heap).eq_of_error result
      simp only [apply, result, Action.residue, same]
      refine .keep (fun _ issued => issued) ?_ (fun _ => rfl) rfl
      rintro g ⟨rfl, heap₁, done⟩
      rw [result] at done
      cases done
  | clear =>
    obtain ⟨slots, nodup, listed⟩ := clear_effect heap
    exact .clear (fun _ issued => issued) (fun _ => trivial) slots nodup listed

theorem Tidy.apply (tidy : heap.Tidy) (op : Op) : (op.apply heap).Tidy := by
  have nodup := tidy.nodup
  cases op.effect tidy with
  | keep _ _ slots free =>
    refine ⟨free ▸ nodup, ?_⟩
    intro i listed
    rw [slots]
    exact tidy.vacant i (free ▸ listed)
  | issue h _ _ before slots =>
    rcases before with ⟨_, free⟩ | ⟨_, _, free⟩
    · rw [free] at nodup
      obtain ⟨fresh, rest⟩ := List.nodup_cons.mp nodup
      refine ⟨rest, ?_⟩
      intro i listed
      have other : i ≠ h.index := fun same => fresh (same ▸ listed)
      rw [slots, if_neg other]
      exact tidy.vacant i (free ▸ List.mem_cons_of_mem _ listed)
    · refine ⟨free ▸ List.nodup_nil, ?_⟩
      intro i listed
      rw [free] at listed
      cases listed
  | revoke h _ _ occupied slots free =>
    have unlisted := tidy.unlisted occupied
    have kept : ∀ i ∈ heap.free, ∃ generation,
        (op.apply heap).occupancy i = some (generation, false) := by
      intro i listed
      have other : i ≠ h.index := fun same => unlisted (same ▸ listed)
      rw [slots, if_neg other]
      exact tidy.vacant i listed
    by_cases last : h.generation < Slot.lastGeneration
    · rw [if_pos last] at free
      refine ⟨free ▸ List.nodup_cons.mpr ⟨unlisted, nodup⟩, ?_⟩
      intro i listed
      rw [free] at listed
      rcases List.mem_cons.mp listed with same | older
      · exact ⟨_, by rw [slots, if_pos same]⟩
      · exact kept i older
    · rw [if_neg last] at free
      refine ⟨free ▸ nodup, ?_⟩
      intro i listed
      exact kept i (free ▸ listed)
  | clear _ _ slots nodup listed =>
    refine ⟨nodup, ?_⟩
    intro i free
    obtain ⟨generation, occupied, known, _⟩ := (listed i).mp free
    exact ⟨Slot.later generation, by rw [slots, known]; rfl⟩

theorem Used.apply (tidy : heap.Tidy) (op : Op) {g : Handle} (used : heap.Used g) :
    (op.apply heap).Used g := by
  obtain ⟨generation, occupied, known, passed⟩ := used
  cases op.effect tidy with
  | keep _ _ slots free =>
    rw [← free] at passed
    exact ⟨generation, occupied, by rw [slots, known], passed⟩
  | issue h _ _ before slots =>
    by_cases here : g.index = h.index
    · rcases before with ⟨vacant, free⟩ | ⟨missing, _⟩
      · rw [here, vacant] at known
        cases known
        refine ⟨h.generation, true, by rw [slots, if_pos here], ?_⟩
        rcases passed with older | ⟨_, unlisted⟩
        · exact .inl older
        · rw [here, free] at unlisted
          exact absurd (List.mem_cons_self ..) unlisted
      · rw [here, missing] at known
        cases known
    · refine ⟨generation, occupied, by rw [slots, if_neg here, known], ?_⟩
      rcases passed with older | ⟨same, unlisted⟩
      · exact .inl older
      · refine .inr ⟨same, ?_⟩
        rcases before with ⟨_, free⟩ | ⟨_, _, free⟩
        · intro listed
          exact unlisted (free ▸ List.mem_cons_of_mem _ listed)
        · rw [free]
          exact List.not_mem_nil
  | revoke h _ _ full slots free =>
    by_cases here : g.index = h.index
    · rw [here, full] at known
      cases known
      refine ⟨Slot.later h.generation, false, by rw [slots, if_pos here], ?_⟩
      by_cases last : h.generation < Slot.lastGeneration
      · have raised := Slot.lt_later last
        left
        omega
      · rw [if_neg last] at free
        rw [Slot.later_of_last last, free]
        exact passed
    · refine ⟨generation, occupied, by rw [slots, if_neg here, known], ?_⟩
      rcases passed with older | ⟨same, unlisted⟩
      · exact .inl older
      · refine .inr ⟨same, ?_⟩
        rw [free]
        split
        · intro listed
          rcases List.mem_cons.mp listed with index | older
          · exact here index
          · exact unlisted older
        · exact unlisted
  | clear _ _ slots _ listed =>
    -- A slot that is free already moves on too. The generation that it skips is never issued.
    refine ⟨Slot.later generation, false, by rw [slots, known]; rfl, ?_⟩
    by_cases last : generation < Slot.lastGeneration
    · have raised := Slot.lt_later last
      left
      omega
    · have unlisted : g.index ∉ (op.apply heap).free := by
        intro free
        obtain ⟨_, _, again, below⟩ := (listed g.index).mp free
        rw [known] at again
        cases again
        exact last below
      rw [Slot.later_of_last last]
      rcases passed with older | ⟨same, _⟩
      · exact .inl older
      · exact .inr ⟨same, unlisted⟩

theorem Used.of_live (tidy : heap.Tidy) {g : Handle} (live : heap.isLive g = true) :
    heap.Used g := by
  have occupied := isLive_iff.mp live
  exact ⟨g.generation, true, occupied, .inr ⟨rfl, tidy.unlisted occupied⟩⟩

theorem Op.Issues.unused (tidy : heap.Tidy) {op : Op} {g : Handle} (issues : op.Issues heap g) :
    ¬ heap.Used g := by
  rintro ⟨generation, occupied, known, passed⟩
  cases op.effect tidy with
  | keep never _ _ _ => exact never g issues
  | issue h exactly _ before _ =>
    have same := (exactly g).mp issues
    subst same
    rcases before with ⟨vacant, free⟩ | ⟨missing, _⟩
    · rw [vacant] at known
      cases known
      rcases passed with older | ⟨_, unlisted⟩
      · omega
      · rw [free] at unlisted
        exact unlisted (List.mem_cons_self ..)
    · rw [missing] at known
      cases known
  | revoke _ never _ _ _ _ => exact never g issues
  | clear never _ _ _ _ => exact never g issues

theorem isLive_apply (tidy : heap.Tidy) (op : Op) (g : Handle) :
    (op.apply heap).isLive g = true ↔
      op.Issues heap g ∨ heap.isLive g = true ∧ ¬ op.Revokes heap g := by
  rw [isLive_iff, isLive_iff]
  cases op.effect tidy with
  | keep never unrevoked slots _ =>
    rw [slots]
    constructor
    · intro live
      exact .inr ⟨live, unrevoked g⟩
    · rintro (issued | ⟨live, _⟩)
      · exact absurd issued (never g)
      · exact live
  | issue h exactly unrevoked before slots =>
    rw [exactly, slots]
    by_cases here : g.index = h.index
    · have dead : heap.occupancy g.index ≠ some (g.generation, true) := by
        rw [here]
        rcases before with ⟨vacant, _⟩ | ⟨missing, _⟩
        · simp [vacant]
        · simp [missing]
      rw [if_pos here]
      constructor
      · intro live
        have current : h.generation = g.generation := congrArg Prod.fst (Option.some.inj live)
        exact .inl (Handle.eq_of_fields here current.symm)
      · rintro (same | ⟨live, _⟩)
        · rw [same]
        · exact absurd live dead
    · rw [if_neg here]
      constructor
      · intro live
        exact .inr ⟨live, unrevoked g⟩
      · rintro (same | ⟨live, _⟩)
        · exact absurd (congrArg Handle.index same) here
        · exact live
  | revoke h never exactly occupied slots _ =>
    rw [exactly, slots]
    by_cases here : g.index = h.index
    · rw [if_pos here]
      constructor
      · intro live
        exact absurd (congrArg Prod.snd (Option.some.inj live)) Bool.false_ne_true
      · rintro (issued | ⟨live, other⟩)
        · exact absurd issued (never g)
        · rw [here, occupied] at live
          have current : h.generation = g.generation := congrArg Prod.fst (Option.some.inj live)
          exact absurd (Handle.eq_of_fields here current.symm) other
    · rw [if_neg here]
      constructor
      · intro live
        exact .inr ⟨live, fun same => here (congrArg Handle.index same)⟩
      · rintro (issued | ⟨live, _⟩)
        · exact absurd issued (never g)
        · exact live
  | clear never always slots _ _ =>
    rw [slots]
    constructor
    · intro live
      obtain ⟨slot, _, same⟩ := Option.map_eq_some_iff.mp live
      exact absurd (congrArg Prod.snd same) Bool.false_ne_true
    · rintro (issued | ⟨_, unrevoked⟩)
      · exact absurd issued (never g)
      · exact absurd (always g) unrevoked

def IssuedAt (budget : Nat) (history : Nat → Op) (t : Nat) (h : Handle) : Prop :=
  (history t).Issues (heapAt budget history t) h

def RevokedAt (budget : Nat) (history : Nat → Op) (t : Nat) (h : Handle) : Prop :=
  (history t).Revokes (heapAt budget history t) h

variable {budget : Nat} {history : Nat → Op} {h : Handle}

theorem heapAt_tidy (budget : Nat) (history : Nat → Op) (t : Nat) :
    (heapAt budget history t).Tidy := by
  induction t with
  | zero => exact ⟨List.nodup_nil, nofun⟩
  | succ t ih => exact ih.apply (history t)

theorem isLive_heapAt_succ (t : Nat) :
    (heapAt budget history (t + 1)).isLive h = true ↔
      IssuedAt budget history t h ∨
        (heapAt budget history t).isLive h = true ∧ ¬ RevokedAt budget history t h :=
  isLive_apply (heapAt_tidy budget history t) (history t) h

theorem IssuedAt.used {i t : Nat} (issued : IssuedAt budget history i h) (before : i < t) :
    (heapAt budget history t).Used h := by
  induction t with
  | zero => omega
  | succ t ih =>
    by_cases now : i = t
    · subst now
      have live := (isLive_heapAt_succ i).mpr (.inl issued)
      exact .of_live (heapAt_tidy budget history (i + 1)) live
    · exact (ih (by omega)).apply (heapAt_tidy budget history t) (history t)

theorem IssuedAt.unique {i j : Nat} (first : IssuedAt budget history i h)
    (second : IssuedAt budget history j h) : i = j := by
  have later : ∀ {i j}, IssuedAt budget history i h → IssuedAt budget history j h → ¬ i < j := by
    intro i j older newer before
    exact newer.unused (heapAt_tidy budget history j) (older.used before)
  have notBefore := later first second
  have notAfter := later second first
  omega

theorem isLive_heapAt_iff (t : Nat) :
    (heapAt budget history t).isLive h = true ↔
      ∃ i, i < t ∧ IssuedAt budget history i h ∧
        ∀ k, i < k → k < t → ¬ RevokedAt budget history k h := by
  induction t with
  | zero =>
    constructor
    · intro live
      cases live
    · rintro ⟨i, before, _⟩
      omega
  | succ t ih =>
    rw [isLive_heapAt_succ, ih]
    constructor
    · rintro (issued | ⟨⟨i, before, issued, kept⟩, unrevoked⟩)
      · exact ⟨t, by omega, issued, fun k after last => by omega⟩
      · refine ⟨i, by omega, issued, ?_⟩
        intro k after last
        by_cases now : k = t
        · rw [now]
          exact unrevoked
        · exact kept k after (by omega)
    · rintro ⟨i, before, issued, kept⟩
      by_cases now : i = t
      · exact .inl (now ▸ issued)
      · refine .inr ⟨⟨i, by omega, issued, ?_⟩, kept t (by omega) (by omega)⟩
        intro k after last
        exact kept k after (by omega)

theorem invalid_of_not_live (dead : heap.isLive h = false) :
    (∀ field, read h field heap = .error (.invalidHandle h) heap) ∧
    (∀ field v, write h field v heap = .error (.invalidHandle h) heap) ∧
    length h heap = .error (.invalidHandle h) heap ∧
    release h heap = .error (.invalidHandle h) heap := by
  have missing : heap.get? h = none := by
    rw [isLive] at dead
    simpa using dead
  refine ⟨?_, ?_, ?_, ?_⟩
  · intro field
    simp only [read, missing]
  · intro field v
    simp only [write, checkWrite, missing]
  · simp only [length, missing]
  · simp only [release, missing]

/-- Of all allocations in a history at most one returns the handle `h`. It is live from there to the
first operation that frees it or clears the heap, and at no other time. -/
theorem handles_are_never_revived (budget : Nat) (history : Nat → Op) (h : Handle) :
    (∀ i j, IssuedAt budget history i h → IssuedAt budget history j h → i = j) ∧
    (∀ t, (heapAt budget history t).isLive h = true ↔
      ∃ i, i < t ∧ IssuedAt budget history i h ∧
        ∀ k, i < k → k < t → ¬ RevokedAt budget history k h) ∧
    (∀ i k t, IssuedAt budget history i h → i < k → RevokedAt budget history k h → k < t →
      (heapAt budget history t).isLive h = false ∧
      (∀ field, read h field (heapAt budget history t) =
        .error (.invalidHandle h) (heapAt budget history t)) ∧
      (∀ field v, write h field v (heapAt budget history t) =
        .error (.invalidHandle h) (heapAt budget history t)) ∧
      length h (heapAt budget history t) =
        .error (.invalidHandle h) (heapAt budget history t) ∧
      release h (heapAt budget history t) =
        .error (.invalidHandle h) (heapAt budget history t)) ∧
    ((∀ i, ¬ IssuedAt budget history i h) → ∀ t, (heapAt budget history t).isLive h = false) := by
  refine ⟨fun i j => IssuedAt.unique, isLive_heapAt_iff, ?_, ?_⟩
  · intro i k t issued after revoked before
    have dead : (heapAt budget history t).isLive h = false := by
      rw [Bool.eq_false_iff]
      intro live
      obtain ⟨j, _, again, kept⟩ := (isLive_heapAt_iff t).mp live
      have same := issued.unique again
      subst same
      exact kept k after before revoked
    exact ⟨dead, invalid_of_not_live dead⟩
  · intro never t
    rw [Bool.eq_false_iff]
    intro live
    obtain ⟨i, _, issued, _⟩ := (isLive_heapAt_iff t).mp live
    exact never i issued

def recycling (t : Nat) : Op :=
  match t with
  | 0 => .allocate .record 1
  | 1 => .allocate .bytes 3
  | 2 => .release ⟨0, 0⟩
  | 4 => .allocate .record 2
  | _ => .clear

theorem recycled_slot_keeps_old_handle_dead :
    IssuedAt 256 recycling 0 ⟨0, 0⟩ ∧ RevokedAt 256 recycling 2 ⟨0, 0⟩ ∧
      IssuedAt 256 recycling 4 ⟨0, 2⟩ ∧
      (heapAt 256 recycling 5).isLive ⟨0, 2⟩ = true ∧
      (heapAt 256 recycling 5).isLive ⟨0, 0⟩ = false ∧
      release ⟨0, 0⟩ (heapAt 256 recycling 5) =
        .error (.invalidHandle ⟨0, 0⟩) (heapAt 256 recycling 5) := by
  have issued : IssuedAt 256 recycling 0 ⟨0, 0⟩ := ⟨_, rfl⟩
  have revoked : RevokedAt 256 recycling 2 ⟨0, 0⟩ := ⟨rfl, _, rfl⟩
  have again : IssuedAt 256 recycling 4 ⟨0, 2⟩ := ⟨_, by cbv⟩
  obtain ⟨_, _, later, _⟩ := handles_are_never_revived 256 recycling ⟨0, 0⟩
  obtain ⟨dead, _, _, _, unfreeable⟩ := later 0 2 5 issued (by omega) revoked (by omega)
  exact ⟨issued, revoked, again, by decide +kernel, dead, unfreeable⟩

end Heap

end StackMachine
