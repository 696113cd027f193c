import StackMachine.Proofs.OperandStack

namespace StackMachine.OperandStack

def after (limit : Nat) (history : List Op) : OperandStack :=
  history.foldl (fun s op => op.apply s) (.empty limit)

def Op.fault? (s : OperandStack) : Op → Option Fault
  | push v => Action.fault? (OperandStack.push v s)
  | pop => Action.fault? (OperandStack.pop s)
  | peek n => Action.fault? (OperandStack.peek n s)
  | setFloor floor => Action.fault? (OperandStack.setFloor floor s)
  | collapse base keep => Action.fault? (OperandStack.collapse base keep s)
  | release => none

section

variable {s : OperandStack}

theorem push_atomic (v : Value) (s : OperandStack) : (push v).Atomic s := by
  unfold Action.Atomic Action.outcome
  rw [push_eq]
  split <;> rfl

theorem pop_atomic (s : OperandStack) : pop.Atomic s := by
  unfold Action.Atomic Action.outcome
  rw [pop_eq]
  cases s.operand 0 <;> rfl

theorem peek_readOnly (n : Nat) (s : OperandStack) : (peek n).ReadOnly s := by
  apply Action.readOnly_of_residue
  rw [peek_eq]
  exact Action.residue_observe s _

theorem setFloor_atomic (floor : Nat) (s : OperandStack) : (setFloor floor).Atomic s := by
  apply Action.atomic_of_error
  intro e s' failed
  by_cases below : floor ≤ s.depth
  · cases (setFloor_eq below).symm.trans failed
  · cases (setFloor_eq_error (Nat.not_le.mp below)).symm.trans failed
    rfl

theorem collapse_atomic (base keep : Nat) (s : OperandStack) : (collapse base keep).Atomic s := by
  apply Action.atomic_of_error
  intro e s' failed
  by_cases fits : base + keep ≤ s.depth
  · cases (collapse_eq fits).symm.trans failed
  · cases (collapse_eq_error fits).symm.trans failed
    rfl

theorem Op.apply_of_fault {op : Op} {e : Fault} (failed : op.fault? s = some e) :
    op.apply s = s := by
  cases op with
  | push v => exact (push_atomic v s).residue_of_fault failed
  | pop => exact (pop_atomic s).residue_of_fault failed
  | peek n => exact (peek_readOnly n s).residue_eq
  | setFloor floor => exact (setFloor_atomic floor s).residue_of_fault failed
  | collapse base keep => exact (collapse_atomic base keep s).residue_of_fault failed
  | release => cases failed

theorem Op.maxDepth_apply (op : Op) (s : OperandStack) : (op.apply s).maxDepth = s.maxDepth := by
  cases op with
  | push v =>
    simp only [apply, push_eq]
    split <;> rfl
  | pop =>
    simp only [apply, pop_eq]
    cases s.operand 0 <;> rfl
  | peek n => rw [apply, (peek_readOnly n s).residue_eq]
  | setFloor floor =>
    by_cases below : floor ≤ s.depth
    · rw [apply, setFloor_eq below]
      rfl
    · rw [apply, setFloor_eq_error (Nat.not_le.mp below)]
      rfl
  | collapse base keep =>
    by_cases fits : base + keep ≤ s.depth
    · rw [apply, collapse_eq fits]
      rfl
    · rw [apply, collapse_eq_error fits]
      rfl
  | release => rfl

theorem after_wellFormed (limit : Nat) (history : List Op) :
    (after limit history).WellFormed ∧ (after limit history).maxDepth = limit := by
  have initial : (OperandStack.empty limit).WellFormed ∧
      (OperandStack.empty limit).maxDepth = limit := ⟨.empty limit, rfl⟩
  refine List.foldlRecOn (motive := fun s => s.WellFormed ∧ s.maxDepth = limit) history
    (fun s op => op.apply s) initial ?_
  rintro s ⟨wf, same⟩ op _
  exact ⟨wf.apply op, (op.maxDepth_apply s).trans same⟩

theorem exists_setFloor_iff (floor : Nat) :
    (∃ s', setFloor floor s = .ok () s') ↔ floor ≤ s.depth := by
  constructor
  · rintro ⟨s', done⟩
    by_contra above
    cases (setFloor_eq_error (Nat.not_le.mp above)).symm.trans done
  · intro below
    exact ⟨_, setFloor_eq below⟩

theorem exists_collapse_iff (base keep : Nat) :
    (∃ s', collapse base keep s = .ok () s') ↔ base + keep ≤ s.depth := by
  constructor
  · rintro ⟨s', done⟩
    by_contra short
    cases (collapse_eq_error short).symm.trans done
  · intro fits
    exact ⟨_, collapse_eq fits⟩

end

inductive Use where
  | push (v : Value)
  | pop
  | peek (n : Nat)
deriving DecidableEq, Repr

abbrev Answer := Except Fault (Option Value)

def reply {α : Type} (value? : α → Option Value) :
    EStateM.Result Fault OperandStack α → Answer × OperandStack
  | .ok a s => (.ok (value? a), s)
  | .error e s => (.error e, s)

def Use.onStack (use : Use) (s : OperandStack) : Answer × OperandStack :=
  match use with
  | push v => reply (fun _ => none) (OperandStack.push v s)
  | pop => reply some (OperandStack.pop s)
  | peek n => reply some (OperandStack.peek n s)

/-- The use of a last-in-first-out list that has its top value first and room for `room` values.
A list that is full says the limit of the stack that it is a part of. -/
def Use.onList (limit room : Nat) (use : Use) (items : List Value) : Answer × List Value :=
  match use, items with
  | push v, items =>
    if items.length < room then (.ok none, v :: items)
    else (.error (.stackOverflow limit), items)
  | pop, v :: rest => (.ok (some v), rest)
  | pop, [] => (.error .stackUnderflow, [])
  | peek n, items =>
    match items[n]? with
    | some v => (.ok (some v), items)
    | none => (.error .stackUnderflow, items)

def perform {σ : Type} (step : Use → σ → Answer × σ) : List Use → σ → List Answer × σ
  | [], s => ([], s)
  | use :: rest, s =>
    let (answer, s) := step use s
    let (answers, s) := perform step rest s
    (answer :: answers, s)

def buried (s : OperandStack) : List Value := s.toList.take s.floor

def reachable (s : OperandStack) : List Value := (s.toList.drop s.floor).reverse

/-- The stack with these values below its floor and these above. -/
def stacked (limit : Nat) (buried items : List Value) : OperandStack :=
  ⟨(buried ++ items.reverse).toArray, limit, buried.length⟩

section

variable {s : OperandStack} {limit : Nat} {buried items : List Value}

theorem WellFormed.stacked_eq (wf : s.WellFormed) :
    s = stacked s.maxDepth s.buried s.reachable := by
  have floor : s.buried.length = s.floor := by
    rw [OperandStack.buried, List.length_take]
    exact Nat.min_eq_left wf.floor_le
  rw [stacked, floor]
  simp [OperandStack.buried, reachable, toList]

theorem depth_stacked : (stacked limit buried items).depth = buried.length + items.length := by
  simp [stacked, depth]

theorem available_stacked : (stacked limit buried items).available = items.length := by
  rw [available, depth_stacked]
  exact Nat.add_sub_cancel_left _ _

theorem push_stacked (v : Value) :
    push v (stacked limit buried items) =
      if items.length < limit - buried.length then .ok () (stacked limit buried (v :: items))
      else .error (.stackOverflow limit) (stacked limit buried items) := by
  have full : (stacked limit buried items).isFull ↔ ¬ items.length < limit - buried.length := by
    rw [isFull, decide_eq_true_iff, depth_stacked]
    change limit ≤ buried.length + items.length ↔ _
    omega
  by_cases room : items.length < limit - buried.length
  · rw [push, if_neg (mt full.mp (not_not_intro room)), if_pos room]
    simp [stacked]
  · rw [push, if_pos (full.mpr room), if_neg room]
    rfl

theorem pop_stacked (v : Value) :
    pop (stacked limit buried (v :: items)) = .ok v (stacked limit buried items) := by
  simp [pop, depth, stacked]

theorem pop_stacked_nil :
    pop (stacked limit buried []) = .error .stackUnderflow (stacked limit buried []) := by
  simp [pop, depth, stacked]

theorem peek_stacked {n : Nat} {v : Value} (found : items[n]? = some v) :
    peek n (stacked limit buried items) = .ok v (stacked limit buried items) := by
  have values : (stacked limit buried items).toList = buried ++ items.reverse := rfl
  have top : items.reverse.reverse[n]? = some v := by rw [List.reverse_reverse, found]
  rw [peek_eq, operand_of_toList values (Nat.le_refl _) top]
  rfl

theorem peek_stacked_none {n : Nat} (absent : items[n]? = none) :
    peek n (stacked limit buried items) =
      .error .stackUnderflow (stacked limit buried items) := by
  have below : items.length ≤ n := List.getElem?_eq_none_iff.mp absent
  rw [peek, available_stacked, if_pos below]

theorem Use.onStack_stacked (use : Use) :
    use.onStack (stacked limit buried items) =
      ((use.onList limit (limit - buried.length) items).1,
        stacked limit buried (use.onList limit (limit - buried.length) items).2) := by
  cases use with
  | push v =>
    rw [onStack, onList, push_stacked]
    split <;> rfl
  | pop =>
    cases items with
    | nil =>
      rw [onStack, pop_stacked_nil]
      rfl
    | cons v rest =>
      rw [onStack, pop_stacked]
      rfl
  | peek n =>
    cases found : items[n]? with
    | some v =>
      rw [onStack, peek_stacked found]
      simp only [onList, found]
      rfl
    | none =>
      rw [onStack, peek_stacked_none found]
      simp only [onList, found]
      rfl

theorem perform_stacked (uses : List Use) :
    perform Use.onStack uses (stacked limit buried items) =
      ((perform (Use.onList limit (limit - buried.length)) uses items).1,
        stacked limit buried
          (perform (Use.onList limit (limit - buried.length)) uses items).2) := by
  -- Each use changes the items alone; what is buried, and so the room above it, stays.
  induction uses generalizing items with
  | nil => rfl
  | cons use rest ih => simp only [perform, Use.onStack_stacked, ih]

end

/-- Whatever was done to a stack, its floor is not above its top, nor its top above the limit. From
then on pushes, pops and peeks are those of the list above the floor, and the values below it stay.
A collapse succeeds if the two parts that it keeps do not overlap, the floor moves to every place
up to the top, and an operation that fails changes nothing. -/
theorem stack_acts_as_list_above_floor (limit : Nat) (history : List Op) :
    let s := after limit history
    (s.floor ≤ s.depth ∧ s.depth ≤ limit ∧ s.floor + s.available = s.depth) ∧
    (∀ uses, perform Use.onStack uses s =
      let result := perform (Use.onList limit (limit - s.floor)) uses s.reachable
      (result.1, stacked limit s.buried result.2)) ∧
    (s = stacked limit s.buried s.reachable ∧ s.buried.length = s.floor) ∧
    (∀ base keep, ((∃ s', collapse base keep s = .ok () s') ↔ base + keep ≤ s.depth) ∧
      ∀ s', collapse base keep s = .ok () s' →
        s'.toList = s.toList.take base ++ s.toList.drop (s.depth - keep) ∧
        s'.floor = min s.floor s'.depth ∧ s'.maxDepth = limit) ∧
    (∀ floor, ((∃ s', setFloor floor s = .ok () s') ↔ floor ≤ s.depth) ∧
      ∀ s', setFloor floor s = .ok () s' → s' = { s with floor := floor }) ∧
    ∀ op e, Op.fault? s op = some e → op.apply s = s := by
  intro s
  obtain ⟨wf, same⟩ := after_wellFormed limit history
  have floor := wf.floor_le
  have shape : s = stacked limit s.buried s.reachable := by
    rw [← same]
    exact wf.stacked_eq
  have ground : s.buried.length = s.floor := by
    rw [buried, List.length_take]
    exact Nat.min_eq_left floor
  refine ⟨⟨floor, same ▸ wf.depth_le, Nat.add_sub_of_le floor⟩, ?_, ⟨shape, ground⟩, ?_, ?_,
    fun op e => Op.apply_of_fault⟩
  · intro uses
    rw [shape, perform_stacked, ← shape, ground]
  · intro base keep
    refine ⟨exists_collapse_iff base keep, ?_⟩
    intro s' done
    have fits := (exists_collapse_iff base keep).mp ⟨s', done⟩
    cases (collapse_eq fits).symm.trans done
    refine ⟨?_, rfl, same⟩
    simp [collapsed, toList, depth]
  · intro level
    refine ⟨exists_setFloor_iff level, ?_⟩
    intro s' done
    have below := (exists_setFloor_iff level).mp ⟨s', done⟩
    cases (setFloor_eq below).symm.trans done
    rfl

def halfBuried : OperandStack :=
  after 4 [.push (.int 1), .push (.int 2), .push (.int 3), .setFloor 2, .push (.int 4)]

theorem half_buried_stack_acts_as_list :
    perform Use.onStack [.push .null, .peek 1, .pop, .pop, .pop] halfBuried =
      ([.error (.stackOverflow 4), .ok (some (.int 3)), .ok (some (.int 4)), .ok (some (.int 3)),
        .error .stackUnderflow], stacked 4 [.int 1, .int 2] []) ∧
    (¬ ∃ s', collapse (2 ^ 64 - 1) 2 halfBuried = .ok () s') ∧
    (∃ s', collapse 1 0 halfBuried = .ok () s' ∧ s'.toList = [.int 1] ∧ s'.floor = 1) := by
  obtain ⟨_, uses, _, collapses, _⟩ := stack_acts_as_list_above_floor 4
    [.push (.int 1), .push (.int 2), .push (.int 3), .setFloor 2, .push (.int 4)]
  refine ⟨uses _, ?_, ?_⟩
  · rw [halfBuried, (collapses (2 ^ 64 - 1) 2).1]
    decide
  · obtain ⟨s', done⟩ := (collapses 1 0).1.mpr (by decide)
    obtain ⟨values, floor, _⟩ := (collapses 1 0).2 s' done
    have one : s'.toList = [.int 1] := values
    refine ⟨s', done, one, ?_⟩
    rw [floor, depth, ← Array.length_toList, ← toList, one]
    rfl

end StackMachine.OperandStack
