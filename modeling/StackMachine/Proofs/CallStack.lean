import StackMachine.CallStack
import StackMachine.Proofs.OperandStack

namespace StackMachine

theorem extract_suffix {α : Type} {values : Array α} {v : α} {n : Nat} (bound : n < values.size)
    (last : values[values.size - 1 - 0]? = some v) :
    values.extract (values.size - (n + 1)) values.size =
      (values.extract 0 (values.size - 1)).extract (values.size - 1 - n) (values.size - 1) ++
        #[v] := by
  apply Array.ext
  · simp
    omega
  · intro i inLeft inRight
    simp at inLeft
    grind

theorem extract_setIfInBounds {α : Type} {values : Array α} {v : α} {n : Nat}
    (bound : n < values.size) :
    (values.setIfInBounds n v).extract n values.size =
      #[v] ++ values.extract (n + 1) values.size := by
  apply Array.ext
  · simp
    omega
  · intro i inLeft inRight
    simp at inLeft
    grind

theorem Frame.setLocal_eq {frame : Frame} {index : Nat} {v : Value}
    (inside : index < frame.window) :
    frame.setLocal index v = .ok { frame with locals := frame.locals.setIfInBounds index v } :=
  if_pos inside

def CallStack.popped (c : CallStack) : CallStack := { c with frames := c.frames.pop }

namespace Thread

def checkEnter (argc : Nat) (t : Thread) : Except Fault Unit :=
  if t.calls.maxDepth ≤ t.calls.depth then .error (.callDepthExceeded t.calls.maxDepth)
  else if t.calls.localsPerFrame < argc then
    .error (.invalidLocal (argc - 1) t.calls.localsPerFrame)
  else if t.stack.available < argc then .error .stackUnderflow
  else .ok ()

def newFrame (returnIp argc : Nat) (t : Thread) : Frame where
  returnIp := returnIp
  base := t.stack.depth - argc
  locals := t.stack.values.extract (t.stack.depth - argc) t.stack.depth ++
    Array.replicate (t.calls.localsPerFrame - argc) .null

def entered (returnIp argc : Nat) (t : Thread) : Thread where
  stack := { t.stack.replaceTop argc #[] with floor := t.stack.depth - argc }
  calls := { t.calls with frames := t.calls.frames.push (t.newFrame returnIp argc) }

def checkLeave (count : Nat) (t : Thread) : Except Fault Frame :=
  if t.calls.frames.size ≤ 1 then .error .frameUnderflow
  else if t.stack.available < count then .error .stackUnderflow
  else
    match t.calls.current? with
    | some frame => .ok frame
    | none => .error .frameUnderflow

def departed (frame : Frame) (count : Nat) (t : Thread) : Thread where
  stack := { t.stack.collapsed frame.base count with floor := t.calls.popped.base }
  calls := t.calls.popped

theorem checkEnter_eq_ok_iff {argc : Nat} {t : Thread} :
    t.checkEnter argc = .ok () ↔
      t.calls.depth < t.calls.maxDepth ∧ argc ≤ t.calls.localsPerFrame ∧
        argc ≤ t.stack.available := by
  unfold checkEnter
  constructor
  · intro checked
    split at checked
    · cases checked
    · split at checked
      · cases checked
      · split at checked
        · cases checked
        · omega
  · rintro ⟨shallow, window, above⟩
    rw [if_neg (by omega), if_neg (by omega), if_neg (by omega)]

theorem checkEnter_eq_ok {argc : Nat} {t : Thread} (checked : t.checkEnter argc = .ok ()) :
    t.calls.depth < t.calls.maxDepth ∧ argc ≤ t.calls.localsPerFrame ∧
      argc ≤ t.stack.available := checkEnter_eq_ok_iff.mp checked

theorem checkLeave_eq_ok {count : Nat} {t : Thread} {frame : Frame}
    (checked : t.checkLeave count = .ok frame) :
    1 < t.calls.frames.size ∧ count ≤ t.stack.available ∧ t.calls.current? = some frame := by
  unfold checkLeave at checked
  split at checked
  · cases checked
  · split at checked
    · cases checked
    · split at checked
      · rename_i current
        cases checked
        exact ⟨by omega, by omega, current⟩
      · cases checked

/-- With as many locals as arguments no local is written outside the window of the frame. -/
theorem popArguments_eq {n : Nat} {frame : Frame} {s : OperandStack}
    (above : n ≤ s.available) (fits : n ≤ frame.window) :
    popArguments n frame s =
      .ok { frame with
        locals := s.values.extract (s.depth - n) s.depth ++ frame.locals.extract n frame.window }
        (s.replaceTop n #[]) := by
  induction n generalizing frame s with
  | zero =>
    simp [popArguments, pure, EStateM.pure, OperandStack.replaceTop, OperandStack.depth,
      Frame.window]
  | succ n ih =>
    have size : n < s.values.size := by
      unfold OperandStack.available OperandStack.depth at above
      omega
    obtain ⟨v, found⟩ := OperandStack.exists_operand (by omega : 0 < s.available)
    have popped : OperandStack.pop s = .ok v (s.replaceTop 1 #[]) := by
      rw [OperandStack.pop_eq, found]
      rfl
    have left : n ≤ (s.replaceTop 1 #[]).available := by
      simp only [OperandStack.available, OperandStack.depth_replaceTop,
        OperandStack.floor_replaceTop, Array.size_empty] at above ⊢
      omega
    have written : Action.lift (frame.setLocal n v) (s.replaceTop 1 #[]) =
        .ok { frame with locals := frame.locals.setIfInBounds n v } (s.replaceTop 1 #[]) := by
      rw [Frame.setLocal_eq fits]
      rfl
    have last : n ≤ Frame.window { frame with locals := frame.locals.setIfInBounds n v } := by
      rw [Frame.window, Array.size_setIfInBounds]
      exact Nat.le_of_lt fits
    rw [popArguments, Action.bind_of_ok popped, Action.bind_of_ok written, ih left last,
      OperandStack.replaceTop_replaceTop, Nat.add_comm 1 n]
    congr 2
    rw [Frame.window, Array.size_setIfInBounds, extract_setIfInBounds fits,
      OperandStack.depth_replaceTop]
    simp only [OperandStack.replaceTop, OperandStack.depth, Array.append_empty, Array.size_empty,
      Nat.add_zero]
    rw [extract_suffix size (OperandStack.operand_eq_ok found), Array.append_assoc]
    rfl

theorem onStack_of_ok {α : Type} {action : Action OperandStack α} {t : Thread} {a : α}
    {s : OperandStack} (done : action t.stack = .ok a s) :
    onStack action t = .ok a { t with stack := s } := by
  simp only [onStack, Action.within, done]

theorem onStack_of_error {α : Type} {action : Action OperandStack α} {t : Thread} {e : Fault}
    {s : OperandStack} (failed : action t.stack = .error e s) :
    onStack action t = .error e { t with stack := s } := by
  simp only [onStack, Action.within, failed]

theorem enter_eq (returnIp argc : Nat) (t : Thread) :
    enter returnIp argc t =
      Action.settle t ((t.checkEnter argc).map fun _ => ((), t.entered returnIp argc)) := by
  unfold enter checkEnter
  rw [Action.get_bind]
  by_cases deep : t.calls.maxDepth ≤ t.calls.depth
  · simp only [deep, ↓reduceIte]
    rfl
  by_cases wide : t.calls.localsPerFrame < argc
  · simp only [deep, wide, ↓reduceIte]
    rfl
  by_cases short : t.stack.available < argc
  · simp only [deep, wide, short, ↓reduceIte]
    rfl
  have fits : argc ≤ (Frame.blank returnIp 0 t.calls.localsPerFrame).window := by
    rw [Frame.window, Frame.blank, Array.size_replicate]
    omega
  have taken := onStack_of_ok (popArguments_eq (Nat.le_of_not_lt short) fits)
  have floor : OperandStack.setFloor (t.stack.depth - argc) (t.stack.replaceTop argc #[]) =
      .ok () { t.stack.replaceTop argc #[] with floor := t.stack.depth - argc } := by
    simp [OperandStack.setFloor]
  simp only [deep, wide, short, ↓reduceIte]
  rw [Action.bind_of_ok taken, Action.get_bind, OperandStack.depth_replaceTop, Array.size_empty,
    Nat.add_zero, Action.bind_of_ok (onStack_of_ok floor)]
  simp [entered, newFrame, Except.map, Frame.blank, Frame.window]
  rfl

end Thread

namespace CallStack

variable {c : CallStack} {frame : Frame}

theorem base_of_current (current : c.current? = some frame) : c.base = frame.base := by
  simp only [base, current]

theorem frames_of_current (current : c.current? = some frame) :
    c.frames = c.frames.pop.push frame := by
  obtain ⟨older, same⟩ := Array.back?_eq_some_iff.mp current
  rw [same, Array.pop_push]

theorem exists_current (rooted : 0 < c.frames.size) : ∃ frame, c.current? = some frame := by
  refine ⟨c.frames[c.frames.size - 1], ?_⟩
  rw [current?, Array.back?_eq_getElem?, Array.getElem?_eq_getElem]

theorem older_base_le (ascending : c.frames.toList.Pairwise (·.base ≤ ·.base))
    (current : c.current? = some frame) :
    ∀ older ∈ c.frames.pop.toList, older.base ≤ frame.base := by
  rw [frames_of_current current, Array.toList_push] at ascending
  intro older member
  exact (List.pairwise_append.mp ascending).2.2 older member frame (List.mem_singleton_self frame)

theorem base_le_current (ascending : c.frames.toList.Pairwise (·.base ≤ ·.base)) :
    ∀ frame ∈ c.frames.toList, frame.base ≤ c.base := by
  intro frame member
  have rooted : 0 < c.frames.size := by
    simpa using List.length_pos_of_mem member
  obtain ⟨last, current⟩ := exists_current rooted
  rw [frames_of_current current, Array.toList_push] at member
  rw [base_of_current current]
  rcases List.mem_append.mp member with older | newest
  · exact older_base_le ascending current frame older
  · exact Nat.le_of_eq (congrArg Frame.base (List.mem_singleton.mp newest))

theorem base_popped_le (ascending : c.frames.toList.Pairwise (·.base ≤ ·.base))
    (current : c.current? = some frame) : c.popped.base ≤ frame.base := by
  cases previous : c.popped.current? with
  | none => simp only [base, previous, Nat.zero_le]
  | some caller =>
    rw [base_of_current previous]
    apply older_base_le ascending current
    have member := frames_of_current previous
    simp only [popped] at member
    rw [member]
    simp

theorem getLocal_readOnly (index : Nat) (c : CallStack) : (getLocal index).ReadOnly c := by
  apply Action.readOnly_of_residue
  unfold getLocal
  cases c.current? with
  | none => rfl
  | some frame => cases found : frame.getLocal index <;> simp only [found] <;> rfl

theorem setLocal_atomic (index : Nat) (v : Value) (c : CallStack) :
    (setLocal index v).Atomic c := by
  apply Action.atomic_of_error
  intro e c' failed
  unfold setLocal at failed
  split at failed
  · cases failed; rfl
  · split at failed
    · cases failed
    · cases failed; rfl

end CallStack

namespace Thread

/-- The values of each call lie above those of its caller. -/
structure Coherent (t : Thread) : Prop where
  stack : t.stack.WellFormed
  rooted : 0 < t.calls.frames.size
  ascending : t.calls.frames.toList.Pairwise (·.base ≤ ·.base)
  base_le : t.calls.base ≤ t.stack.floor

theorem leave_of_refused {t : Thread} {count : Nat} {e : Fault}
    (refused : t.checkLeave count = .error e) : leave count t = .error e t := by
  unfold checkLeave at refused
  unfold leave
  rw [Action.get_bind]
  by_cases bottom : t.calls.frames.size ≤ 1
  · simp only [bottom, ↓reduceIte] at refused ⊢
    cases refused
    rfl
  by_cases short : t.stack.available < count
  · simp only [bottom, short, ↓reduceIte] at refused ⊢
    cases refused
    rfl
  simp only [bottom, short, ↓reduceIte] at refused ⊢
  cases current : t.calls.current? with
  | none =>
    simp only [current] at refused
    cases refused
    rfl
  | some frame =>
    simp only [current] at refused
    cases refused

/-- A return that is not refused gives up its frame, whatever comes of the rest: the results may not
be there above the base of the frame, or the floor of the caller may be above them. -/
theorem leave_of_checked {t : Thread} {count : Nat} {frame : Frame}
    (checked : t.checkLeave count = .ok frame) :
    leave count t =
      if frame.base + count ≤ t.stack.depth then
        if t.calls.popped.base ≤ frame.base + count then
          .ok frame.returnIp (t.departed frame count)
        else .error .stackUnderflow ⟨t.stack.collapsed frame.base count, t.calls.popped⟩
      else .error .stackUnderflow { t with calls := t.calls.popped } := by
  obtain ⟨nested, above, current⟩ := checkLeave_eq_ok checked
  have popped : (modify fun t => { t with calls.frames := t.calls.frames.pop } :
      Action Thread Unit) t = .ok () { t with calls := t.calls.popped } := rfl
  unfold leave
  rw [Action.get_bind]
  simp only [Nat.not_le.mpr nested, Nat.not_lt.mpr above, current, ↓reduceIte]
  rw [Action.bind_of_ok popped]
  by_cases fits : frame.base + count ≤ t.stack.depth
  · have collapsed : onStack (OperandStack.collapse frame.base count)
        { t with calls := t.calls.popped } =
          .ok () ⟨t.stack.collapsed frame.base count, t.calls.popped⟩ :=
      onStack_of_ok (OperandStack.collapse_eq fits)
    rw [Action.bind_of_ok collapsed, Action.get_bind, if_pos fits]
    have depth := OperandStack.depth_collapsed fits
    by_cases caller : t.calls.popped.base ≤ frame.base + count
    · have below : t.calls.popped.base ≤ (t.stack.collapsed frame.base count).depth := by omega
      rw [Action.bind_of_ok (onStack_of_ok (OperandStack.setFloor_eq below)), if_pos caller]
      rfl
    · have above : (t.stack.collapsed frame.base count).depth < t.calls.popped.base := by omega
      rw [Action.bind_of_error (onStack_of_error (OperandStack.setFloor_eq_error above)),
        if_neg caller]
  · have kept : onStack (OperandStack.collapse frame.base count)
        { t with calls := t.calls.popped } =
          .error .stackUnderflow { t with calls := t.calls.popped } :=
      onStack_of_error (OperandStack.collapse_eq_error fits)
    rw [Action.bind_of_error kept, if_neg fits]

/-- A return from a coherent thread is a transaction. What it takes off the stack is there, and the
floor of the caller is not above what is left. -/
theorem leave_eq {t : Thread} (coherent : t.Coherent) (count : Nat) :
    leave count t =
      Action.settle t ((t.checkLeave count).map fun frame =>
        (frame.returnIp, t.departed frame count)) := by
  cases checked : t.checkLeave count with
  | error e => exact leave_of_refused checked
  | ok frame =>
    obtain ⟨_, above, current⟩ := checkLeave_eq_ok checked
    have floor := coherent.stack.floor_le
    have base := coherent.base_le
    have caller := CallStack.base_popped_le coherent.ascending current
    rw [CallStack.base_of_current current] at base
    unfold OperandStack.available at above
    rw [leave_of_checked checked, if_pos (by omega), if_pos (by omega)]
    rfl

end Thread

end StackMachine
