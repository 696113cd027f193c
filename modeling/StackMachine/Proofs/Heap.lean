import StackMachine.Heap
import StackMachine.Proofs.Transaction

namespace StackMachine.Heap

theorem allocate_atomic (kind : ObjectKind) (n : Nat) (heap : Heap) :
    (allocate kind n).Atomic heap := by
  apply Action.atomic_of_error
  intro e heap' failed
  simp only [allocate] at failed
  split at failed
  · cases failed; rfl
  · split at failed
    · cases failed; rfl
    · split at failed
      · cases failed
      · split at failed
        · cases failed; rfl
        · cases failed

theorem write_atomic (h : Handle) (field : Nat) (v : Value) (heap : Heap) :
    (write h field v).Atomic heap := by
  simp only [Action.Atomic, Action.outcome, write]
  cases heap.checkWrite h field v <;> rfl

theorem release_atomic (h : Handle) (heap : Heap) : (release h).Atomic heap := by
  simp only [Action.Atomic, Action.outcome, release]
  cases heap.get? h <;> rfl

theorem read_readOnly (h : Handle) (field : Nat) (heap : Heap) :
    (read h field).ReadOnly heap := by
  apply Action.readOnly_of_residue
  unfold read
  cases heap.get? h with
  | none => rfl
  | some object => cases found : object.get? field <;> simp only [found] <;> rfl

theorem length_readOnly (h : Handle) (heap : Heap) : (length h).ReadOnly heap := by
  apply Action.readOnly_of_residue
  unfold length
  cases heap.get? h <;> rfl

inductive Op where
  | allocate (kind : ObjectKind) (n : Nat)
  | read (h : Handle) (field : Nat)
  | write (h : Handle) (field : Nat) (v : Value)
  | length (h : Handle)
  | release (h : Handle)
  | clear
deriving DecidableEq, Repr

def Op.apply (heap : Heap) : Op → Heap
  | allocate kind n => Action.residue (Heap.allocate kind n heap)
  | read h field => Action.residue (Heap.read h field heap)
  | write h field v => Action.residue (Heap.write h field v heap)
  | length h => Action.residue (Heap.length h heap)
  | release h => Action.residue (Heap.release h heap)
  | clear => heap.clear

/-- The ways in which an operation can come out. -/
inductive Op.Step (heap : Heap) : Op → Heap → Prop where
  | unchanged {op : Op} : Step heap op heap
  | allocated {kind : ObjectKind} {n : Nat} {h : Handle} {heap' : Heap} :
      Heap.allocate kind n heap = .ok h heap' → Step heap (.allocate kind n) heap'
  | written {h : Handle} {field : Nat} {v : Value} {heap' : Heap} :
      Heap.write h field v heap = .ok () heap' → Step heap (.write h field v) heap'
  | released {h : Handle} {heap' : Heap} :
      Heap.release h heap = .ok () heap' → Step heap (.release h) heap'
  | cleared : Step heap .clear heap.clear

theorem Op.step_apply (heap : Heap) (op : Op) : op.Step heap (op.apply heap) := by
  cases op with
  | allocate kind n =>
    cases result : Heap.allocate kind n heap with
    | ok h heap' =>
      rw [apply, result]
      exact .allocated result
    | error e heap' =>
      rw [apply, result, Action.residue, (allocate_atomic kind n heap).eq_of_error result]
      exact .unchanged
  | read h field =>
    rw [apply, (read_readOnly h field heap).residue_eq]
    exact .unchanged
  | write h field v =>
    cases result : Heap.write h field v heap with
    | ok done heap' =>
      rw [apply, result]
      exact .written result
    | error e heap' =>
      rw [apply, result, Action.residue, (write_atomic h field v heap).eq_of_error result]
      exact .unchanged
  | length h =>
    rw [apply, (length_readOnly h heap).residue_eq]
    exact .unchanged
  | release h =>
    cases result : Heap.release h heap with
    | ok done heap' =>
      rw [apply, result]
      exact .released result
    | error e heap' =>
      rw [apply, result, Action.residue, (release_atomic h heap).eq_of_error result]
      exact .unchanged
  | clear => exact .cleared

def heapAt (budget : Nat) (history : Nat → Op) : Nat → Heap
  | 0 => .empty budget
  | t + 1 => (history t).apply (heapAt budget history t)

/-- The heap was made empty, with this budget, and changed by its operations only. -/
inductive Built (budget : Nat) : Heap → Prop where
  | empty : Built budget (.empty budget)
  | apply {heap : Heap} (op : Op) : Built budget heap → Built budget (op.apply heap)

def Op.fault? (heap : Heap) : Op → Option Fault
  | allocate kind n => Action.fault? (Heap.allocate kind n heap)
  | read h field => Action.fault? (Heap.read h field heap)
  | write h field v => Action.fault? (Heap.write h field v heap)
  | length h => Action.fault? (Heap.length h heap)
  | release h => Action.fault? (Heap.release h heap)
  | clear => none

theorem Op.apply_of_fault {heap : Heap} {op : Op} {e : Fault} (failed : op.fault? heap = some e) :
    op.apply heap = heap := by
  cases op with
  | allocate kind n => exact (allocate_atomic kind n heap).residue_of_fault failed
  | read h field => exact (read_readOnly h field heap).residue_eq
  | write h field v => exact (write_atomic h field v heap).residue_of_fault failed
  | length h => exact (length_readOnly h heap).residue_eq
  | release h => exact (release_atomic h heap).residue_of_fault failed
  | clear => cases failed

end StackMachine.Heap
