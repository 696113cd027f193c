import StackMachine.OperandStack
import StackMachine.Proofs.Transaction

namespace StackMachine.OperandStack

def replaceTop (k : Nat) (out : Array Value) (s : OperandStack) : OperandStack :=
  { s with values := s.values.extract 0 (s.depth - k) ++ out }

def collapsed (base keep : Nat) (s : OperandStack) : OperandStack :=
  let values := s.values.extract 0 base ++ s.values.extract (s.depth - keep) s.depth
  { s with values := values, floor := min s.floor values.size }

/-- The value `n` places below the top, if it is above the floor. -/
def operand (n : Nat) (s : OperandStack) : Except Fault Value :=
  if s.available ≤ n then .error .stackUnderflow
  else
    match s.values[s.depth - 1 - n]? with
    | some v => .ok v
    | none => .error .stackUnderflow

section

variable {s : OperandStack} {k n : Nat} {out : Array Value} {v : Value}

@[simp] theorem floor_replaceTop : (s.replaceTop k out).floor = s.floor := rfl

@[simp] theorem maxDepth_replaceTop : (s.replaceTop k out).maxDepth = s.maxDepth := rfl

@[simp] theorem depth_replaceTop : (s.replaceTop k out).depth = s.depth - k + out.size := by
  simp [replaceTop, depth]

theorem replaceTop_push :
    (s.replaceTop k out).replaceTop 0 #[v] = s.replaceTop k (out.push v) := by
  simp [replaceTop, depth]

theorem extract_append_of_le {values out : Array Value} {bound : Nat} (below : bound ≤ n)
    (size : n ≤ values.size) :
    (values.extract 0 n ++ out).extract 0 bound = values.extract 0 bound := by
  have inside : bound ≤ (values.extract 0 n).size := by
    rw [Array.size_extract]
    omega
  rw [Array.extract_append, Array.extract_extract, Nat.sub_eq_zero_of_le inside]
  simp [Nat.min_eq_left below]

theorem extract_replaceTop {bound : Nat} (below : bound ≤ s.depth - k) :
    (s.replaceTop k out).values.extract 0 bound = s.values.extract 0 bound :=
  extract_append_of_le below (Nat.sub_le _ _)

theorem replaceTop_replaceTop (k n : Nat) :
    (s.replaceTop k #[]).replaceTop n out = s.replaceTop (k + n) out := by
  have bound : s.depth - k + 0 - n = s.depth - (k + n) := by omega
  have values : (s.replaceTop k #[]).values.extract 0 (s.depth - (k + n)) =
      s.values.extract 0 (s.depth - (k + n)) := extract_replaceTop (by omega)
  rw [replaceTop, depth_replaceTop, Array.size_empty, bound, values]
  rfl

theorem extract_collapsed {base keep bound : Nat} (below : bound ≤ base) (fits : base ≤ s.depth) :
    (s.collapsed base keep).values.extract 0 bound = s.values.extract 0 bound :=
  extract_append_of_le below fits

theorem lt_available_of_operand (found : s.operand n = .ok v) : n < s.available := by
  unfold operand at found
  split at found
  · cases found
  · omega

theorem exists_operand (above : n < s.available) : ∃ v, s.operand n = .ok v := by
  have inside : s.depth - 1 - n < s.values.size := by
    unfold available depth at above
    unfold depth
    omega
  have below : ¬ s.available ≤ n := by omega
  refine ⟨s.values[s.depth - 1 - n], ?_⟩
  simp only [operand, below, ↓reduceIte, Array.getElem?_eq_getElem inside]

theorem operand_eq_ok (found : s.operand n = .ok v) :
    s.values[s.depth - 1 - n]? = some v := by
  unfold operand at found
  split at found
  · cases found
  · split at found
    · rename_i value present
      cases found
      exact present
    · cases found

theorem operand_of_toList {rest taken : List Value} (values : s.toList = rest ++ taken)
    (above : s.floor ≤ rest.length) (found : taken.reverse[n]? = some v) : s.operand n = .ok v := by
  have inside : n < taken.length := by
    have bound := (List.getElem?_eq_some_iff.mp found).1
    rwa [List.length_reverse] at bound
  have size : s.depth = rest.length + taken.length := by
    rw [← List.length_append, ← values]
    rfl
  have index : s.depth - 1 - n = rest.length + (taken.length - 1 - n) := by omega
  have here : s.values[s.depth - 1 - n]? = some v := by
    rw [← Array.getElem?_toList, ← toList, values, index,
      List.getElem?_append_right (Nat.le_add_right _ _), Nat.add_sub_cancel_left,
      ← List.getElem?_reverse inside, found]
  have reached : ¬ s.available ≤ n := by
    unfold available
    omega
  rw [operand, if_neg reached, here]

theorem peek_eq : peek n s = Action.observe s (s.operand n) := by
  unfold peek operand
  split
  · rfl
  · cases s.values[s.depth - 1 - n]? <;> rfl

theorem pop_eq :
    pop s = Action.settle s ((s.operand 0).map fun v => (v, s.replaceTop 1 #[])) := by
  have top : s.values.back? = s.values[s.depth - 1 - 0]? := Array.back?_eq_getElem?
  have rest : s.values.pop = s.values.extract 0 (s.depth - 1) ++ #[] := by simp [depth]
  have empty : s.depth ≤ s.floor ↔ s.available ≤ 0 := by unfold available; omega
  unfold pop operand
  simp only [empty, top, rest]
  split
  · rfl
  · cases s.values[s.depth - 1 - 0]? <;> rfl

theorem push_eq :
    push v s = Action.settle s
      (if s.isFull then .error (.stackOverflow s.maxDepth) else .ok ((), s.replaceTop 0 #[v])) := by
  have whole : s.values.push v = s.values.extract 0 (s.depth - 0) ++ #[v] := by simp [depth]
  unfold push
  rw [whole]
  split <;> rfl

theorem collapse_eq {base keep : Nat} (fits : base + keep ≤ s.depth) :
    collapse base keep s = .ok () (s.collapsed base keep) := by
  have enough : ¬ s.depth < keep := by omega
  have apart : ¬ s.depth - keep < base := by omega
  simp only [collapse, enough, apart, ↓reduceIte, collapsed]

theorem collapse_eq_error {base keep : Nat} (short : ¬ base + keep ≤ s.depth) :
    collapse base keep s = .error .stackUnderflow s := by
  unfold collapse
  by_cases few : s.depth < keep
  · rw [if_pos few]
  · have overlap : s.depth - keep < base := by omega
    simp only [few, overlap, ↓reduceIte]

theorem depth_collapsed {base keep : Nat} (fits : base + keep ≤ s.depth) :
    (s.collapsed base keep).depth = base + keep := by
  simp only [collapsed, depth, Array.size_append, Array.size_extract] at fits ⊢
  omega

theorem setFloor_eq {floor : Nat} (below : floor ≤ s.depth) :
    setFloor floor s = .ok () { s with floor := floor } := by
  simp only [setFloor, Nat.not_lt.mpr below, ↓reduceIte]

theorem setFloor_eq_error {floor : Nat} (above : s.depth < floor) :
    setFloor floor s = .error .stackUnderflow s := by
  simp only [setFloor, above, ↓reduceIte]

end

structure WellFormed (s : OperandStack) : Prop where
  floor_le : s.floor ≤ s.depth
  depth_le : s.depth ≤ s.maxDepth

theorem WellFormed.replaceTop {s : OperandStack} (wf : s.WellFormed) {k : Nat}
    {out : Array Value} (above : k ≤ s.available) (room : s.depth - k + out.size ≤ s.maxDepth) :
    (s.replaceTop k out).WellFormed := by
  have floor := wf.floor_le
  unfold available at above
  constructor
  · simp only [floor_replaceTop, depth_replaceTop]
    omega
  · simpa only [depth_replaceTop, maxDepth_replaceTop] using room

inductive Op where
  | push (v : Value)
  | pop
  | peek (n : Nat)
  | setFloor (floor : Nat)
  | collapse (base keep : Nat)
  | release
deriving DecidableEq, Repr

def Op.apply (op : Op) (s : OperandStack) : OperandStack :=
  match op with
  | push v => Action.residue (OperandStack.push v s)
  | pop => Action.residue (OperandStack.pop s)
  | peek n => Action.residue (OperandStack.peek n s)
  | setFloor floor => Action.residue (OperandStack.setFloor floor s)
  | collapse base keep => Action.residue (OperandStack.collapse base keep s)
  | release => s.release

/-- The stack was made empty and changed by its operations only. -/
inductive Built : OperandStack → Prop where
  | empty (maxDepth : Nat) : Built (.empty maxDepth)
  | apply {s : OperandStack} (op : Op) : Built s → Built (op.apply s)

theorem WellFormed.empty (maxDepth : Nat) : (OperandStack.empty maxDepth).WellFormed :=
  ⟨Nat.le_refl 0, Nat.zero_le maxDepth⟩

theorem WellFormed.apply {s : OperandStack} (wf : s.WellFormed) (op : Op) :
    (op.apply s).WellFormed := by
  have floor := wf.floor_le
  have limit := wf.depth_le
  cases op with
  | push v =>
    simp only [Op.apply, push_eq]
    split
    · exact wf
    · rename_i room
      simp only [isFull, decide_eq_true_eq] at room
      exact wf.replaceTop (Nat.zero_le _) (by simp; omega)
  | pop =>
    simp only [Op.apply, pop_eq]
    cases found : s.operand 0 with
    | error e => exact wf
    | ok v => exact wf.replaceTop (lt_available_of_operand found) (by simp; omega)
  | peek n =>
    simp only [Op.apply, peek_eq]
    cases s.operand n <;> exact wf
  | setFloor n =>
    by_cases below : n ≤ s.depth
    · simp only [Op.apply, setFloor_eq below]
      exact ⟨below, limit⟩
    · simp only [Op.apply, setFloor_eq_error (Nat.not_le.mp below)]
      exact wf
  | collapse base keep =>
    by_cases fits : base + keep ≤ s.depth
    · simp only [Op.apply, collapse_eq fits]
      refine ⟨Nat.min_le_right _ _, ?_⟩
      simp only [Action.residue, depth_collapsed fits]
      exact Nat.le_trans fits limit
    · simp only [Op.apply, collapse_eq_error fits]
      exact wf
  | release => exact ⟨Nat.le_refl 0, Nat.zero_le _⟩

theorem Built.wellFormed {s : OperandStack} (built : s.Built) : s.WellFormed := by
  induction built with
  | empty maxDepth => exact .empty maxDepth
  | apply op _ ih => exact ih.apply op

end StackMachine.OperandStack
