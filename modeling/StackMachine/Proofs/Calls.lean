import StackMachine.Proofs.CallStack

namespace StackMachine

namespace CallStack

variable {c : CallStack} {older : Array Frame} {caller frame : Frame}

theorem exists_caller (nested : 2 ≤ c.frames.size) :
    ∃ (older : Array Frame) (caller frame : Frame),
      c.frames = (older.push caller).push frame := by
  obtain ⟨frame, current⟩ := exists_current (c := c) (by omega)
  have rooted : 0 < c.popped.frames.size := by
    rw [popped, Array.size_pop]
    omega
  obtain ⟨caller, previous⟩ := exists_current rooted
  refine ⟨c.popped.frames.pop, caller, frame, ?_⟩
  rw [← frames_of_current previous]
  exact frames_of_current current

theorem popped_of_frames (frames : c.frames = (older.push caller).push frame) :
    c.popped = { c with frames := older.push caller } ∧ c.popped.base = caller.base := by
  have popped : c.popped = { c with frames := older.push caller } := by
    rw [CallStack.popped, frames, Array.pop_push]
  refine ⟨popped, base_of_current ?_⟩
  rw [popped, current?, Array.back?_push]

end CallStack

namespace Thread

variable {t : Thread}

theorem enter_of_refused {returnIp argc : Nat} {e : Fault}
    (refused : t.checkEnter argc = .error e) : enter returnIp argc t = .error e t := by
  rw [enter_eq, refused]
  rfl

theorem enter_of_checked {returnIp argc : Nat} (checked : t.checkEnter argc = .ok ()) :
    enter returnIp argc t = .ok () (t.entered returnIp argc) := by
  rw [enter_eq, checked]
  rfl

theorem exists_enter_iff (returnIp argc : Nat) :
    (∃ t', enter returnIp argc t = .ok () t') ↔ t.checkEnter argc = .ok () := by
  cases checked : t.checkEnter argc with
  | ok done => simp [enter_of_checked checked]
  | error e => simp [enter_of_refused checked]

/-- A call begins if the call depth, the window of locals and the stack allow it. It takes the
arguments off the stack into the first locals of a new frame, in the order in which they were
pushed. If it cannot begin, it changes nothing and says what was not allowed, in this order. -/
theorem call_moves_arguments_or_nothing (ground : t.stack.floor ≤ t.stack.depth)
    (returnIp argc : Nat) :
    ((∃ t', enter returnIp argc t = .ok () t') ↔
      t.calls.depth < t.calls.maxDepth ∧ argc ≤ t.calls.localsPerFrame ∧
        t.stack.floor + argc ≤ t.stack.depth) ∧
    (∀ t', enter returnIp argc t = .ok () t' →
      ∃ rest arguments frame, t.stack.toList = rest ++ arguments ∧ arguments.length = argc ∧
        t'.stack.toList = rest ∧ t'.stack.maxDepth = t.stack.maxDepth ∧
        t'.calls = { t.calls with frames := t.calls.frames.push frame } ∧
        frame.returnIp = returnIp ∧
        frame.locals.toList = arguments ++ List.replicate (t.calls.localsPerFrame - argc) .null ∧
        frame.base = rest.length ∧ t'.stack.floor = frame.base ∧ t'.stack.depth = frame.base) ∧
    (t.calls.maxDepth ≤ t.calls.depth →
      enter returnIp argc t = .error (.callDepthExceeded t.calls.maxDepth) t) ∧
    (t.calls.depth < t.calls.maxDepth → t.calls.localsPerFrame < argc →
      enter returnIp argc t = .error (.invalidLocal (argc - 1) t.calls.localsPerFrame) t) ∧
    (t.calls.depth < t.calls.maxDepth → argc ≤ t.calls.localsPerFrame →
      t.stack.depth < t.stack.floor + argc →
      enter returnIp argc t = .error .stackUnderflow t) := by
  have room : argc ≤ t.stack.available ↔ t.stack.floor + argc ≤ t.stack.depth := by
    unfold OperandStack.available
    omega
  refine ⟨?_, ?_, ?_, ?_, ?_⟩
  · rw [exists_enter_iff, checkEnter_eq_ok_iff, room]
  · intro t' entered
    have checked := (exists_enter_iff returnIp argc).mp ⟨t', entered⟩
    rw [enter_of_checked checked] at entered
    cases entered
    obtain ⟨_, window, above⟩ := checkEnter_eq_ok checked
    rw [room] at above
    have size : t.stack.toList.length = t.stack.depth := rfl
    refine ⟨t.stack.toList.take (t.stack.depth - argc), t.stack.toList.drop (t.stack.depth - argc),
      t.newFrame returnIp argc, (List.take_append_drop _ _).symm, ?_, ?_, rfl, rfl, rfl, ?_, ?_,
      rfl, ?_⟩
    · rw [List.length_drop]
      omega
    · simp [Thread.entered, OperandStack.toList, OperandStack.replaceTop]
    · simp [newFrame, OperandStack.toList, OperandStack.depth]
    · simp only [newFrame, List.length_take]
      omega
    · exact OperandStack.depth_replaceTop
  · intro deep
    apply enter_of_refused
    rw [checkEnter, if_pos deep]
  · intro shallow wide
    apply enter_of_refused
    rw [checkEnter, if_neg (by omega), if_pos wide]
  · intro shallow window short
    apply enter_of_refused
    rw [checkEnter, if_neg (by omega), if_neg (by omega), if_pos (by omega)]

/-- Between two calls the host drops values from under the frame of the first, and in the second it
raises the floor. -/
def outOfStep : Thread :=
  Action.residue <| (do
    enter 6 0
    onStack (OperandStack.collapse 1 0)
    enter 12 0
    onStack (OperandStack.push (.int 4))
    onStack (OperandStack.push (.int 5))
    onStack (OperandStack.push (.int 6))
    onStack (OperandStack.setFloor 2)) ⟨⟨#[.int 1, .int 2, .int 3], 8, 0⟩, .root 4 3⟩

theorem call_moves_arguments_out_of_step :
    outOfStep.stack.floor ≤ outOfStep.stack.depth ∧
    (∃ t' frame, enter 18 2 outOfStep = .ok () t' ∧ t'.stack.toList = [.int 1, .int 4] ∧
      t'.calls.frames = outOfStep.calls.frames.push frame ∧
      frame.locals.toList = [.int 5, .int 6, .null] ∧ frame.base = 2) ∧
    enter 18 3 outOfStep = .error .stackUnderflow outOfStep ∧
    enter 18 4 outOfStep = .error (.invalidLocal 3 3) outOfStep := by
  have ground : outOfStep.stack.floor ≤ outOfStep.stack.depth := by decide
  obtain ⟨begins, moved, _⟩ := call_moves_arguments_or_nothing ground 18 2
  obtain ⟨t', entered⟩ := begins.mpr (by decide)
  obtain ⟨rest, arguments, frame, split, length, left, _, calls, _, locals, base, _⟩ :=
    moved t' entered
  have two : rest = [.int 1, .int 4] ∧ arguments = [.int 5, .int 6] :=
    List.append_inj' split.symm length
  refine ⟨ground, ⟨t', frame, entered, ?_, ?_, ?_, ?_⟩, ?_, ?_⟩
  · rw [left, two.1]
  · rw [calls]
  · rw [locals, two.2]
    rfl
  · rw [base, two.1]
    rfl
  · exact (call_moves_arguments_or_nothing ground 18 3).2.2.2.2 (by decide) (by decide) (by decide)
  · exact (call_moves_arguments_or_nothing ground 18 4).2.2.2.1 (by decide) (by decide)

theorem leave_of_one_frame {count : Nat} (bottom : t.calls.frames.size < 2) :
    leave count t = .error .frameUnderflow t := by
  apply leave_of_refused
  rw [checkLeave, if_pos (by omega)]

theorem leave_of_short_stack {count : Nat} (nested : 2 ≤ t.calls.frames.size)
    (short : t.stack.available < count) : leave count t = .error .stackUnderflow t := by
  apply leave_of_refused
  rw [checkLeave, if_neg (by omega), if_pos short]

theorem leave_of_frames {count : Nat} {older : Array Frame} {caller frame : Frame}
    (frames : t.calls.frames = (older.push caller).push frame)
    (above : count ≤ t.stack.available) :
    leave count t =
      if frame.base + count ≤ t.stack.depth then
        if caller.base ≤ frame.base + count then
          .ok frame.returnIp
            ⟨{ t.stack.collapsed frame.base count with floor := caller.base },
              { t.calls with frames := older.push caller }⟩
        else .error .stackUnderflow
          ⟨t.stack.collapsed frame.base count, { t.calls with frames := older.push caller }⟩
      else .error .stackUnderflow ⟨t.stack, { t.calls with frames := older.push caller }⟩ := by
  obtain ⟨popped, base⟩ := CallStack.popped_of_frames frames
  have current : t.calls.current? = some frame := by
    rw [CallStack.current?, frames, Array.back?_push]
  have nested : 1 < t.calls.frames.size := by
    rw [frames, Array.size_push, Array.size_push]
    omega
  have checked : t.checkLeave count = .ok frame := by
    rw [checkLeave, if_neg (by omega), if_neg (by omega), current]
  rw [leave_of_checked checked, departed, popped, ← base, popped]

theorem exists_leave_iff (count : Nat) :
    (∃ ip t', leave count t = .ok ip t') ↔
      ∃ older caller frame, t.calls.frames = (Array.push older caller).push frame ∧
        count ≤ t.stack.available ∧ frame.base + count ≤ t.stack.depth ∧
        caller.base ≤ frame.base + count := by
  constructor
  · rintro ⟨ip, t', done⟩
    by_cases nested : 2 ≤ t.calls.frames.size
    · by_cases above : count ≤ t.stack.available
      · obtain ⟨older, caller, frame, frames⟩ := CallStack.exists_caller nested
        rw [leave_of_frames frames above] at done
        split at done
        · rename_i fits
          split at done
          · rename_i reached
            exact ⟨older, caller, frame, frames, above, fits, reached⟩
          · cases done
        · cases done
      · rw [leave_of_short_stack nested (by omega)] at done
        cases done
    · rw [leave_of_one_frame (by omega)] at done
      cases done
  · rintro ⟨older, caller, frame, frames, above, fits, reached⟩
    rw [leave_of_frames frames above, if_pos fits, if_pos reached]
    exact ⟨_, _, rfl⟩

theorem exists_leave_of_in_step {frame : Frame} {count : Nat}
    (current : t.calls.current? = some frame) (floor : t.stack.floor = frame.base)
    (ascending : t.calls.frames.toList.Pairwise (·.base ≤ ·.base))
    (nested : 2 ≤ t.calls.frames.size) (ground : t.stack.floor ≤ t.stack.depth)
    (above : count ≤ t.stack.available) : ∃ ip t', leave count t = .ok ip t' := by
  obtain ⟨older, caller, last, frames⟩ := CallStack.exists_caller nested
  have same : last = frame := by
    rw [CallStack.current?, frames, Array.back?_push] at current
    exact Option.some.inj current
  subst same
  have below := CallStack.base_popped_le ascending current
  rw [(CallStack.popped_of_frames frames).2] at below
  refine (exists_leave_iff count).mpr ⟨older, caller, last, frames, above, ?_, by omega⟩
  unfold OperandStack.available at above
  omega

/-- A return succeeds if there is a caller, if the results are above the floor and above the base of
the frame, and if what is left reaches up to the floor of the caller. Without the first two it
changes nothing; without the others it has given up the frame when it fails, and has taken the
values off the stack if they were there. Where the floor is the base of the frame and the bases
rise, the first two are all that is needed. -/
theorem return_leaves_known_residue (ground : t.stack.floor ≤ t.stack.depth) (count : Nat) :
    ((∃ ip t', leave count t = .ok ip t') ↔
      ∃ older caller frame, t.calls.frames = (Array.push older caller).push frame ∧
        t.stack.floor + count ≤ t.stack.depth ∧ frame.base + count ≤ t.stack.depth ∧
        caller.base ≤ frame.base + count) ∧
    (t.calls.frames.size < 2 → leave count t = .error .frameUnderflow t) ∧
    (2 ≤ t.calls.frames.size → t.stack.depth < t.stack.floor + count →
      leave count t = .error .stackUnderflow t) ∧
    (∀ older caller frame, t.calls.frames = (Array.push older caller).push frame →
      t.stack.floor + count ≤ t.stack.depth →
      let calls := { t.calls with frames := older.push caller }
      let values := t.stack.values.extract 0 frame.base ++
        t.stack.values.extract (t.stack.depth - count) t.stack.depth
      (t.stack.depth < frame.base + count →
        leave count t = .error .stackUnderflow ⟨t.stack, calls⟩) ∧
      (frame.base + count ≤ t.stack.depth → frame.base + count < caller.base →
        leave count t = .error .stackUnderflow
          ⟨{ t.stack with values := values, floor := min t.stack.floor (frame.base + count) },
            calls⟩) ∧
      (frame.base + count ≤ t.stack.depth → caller.base ≤ frame.base + count →
        leave count t = .ok frame.returnIp
          ⟨{ t.stack with values := values, floor := caller.base }, calls⟩)) ∧
    (∀ frame, t.calls.current? = some frame → t.stack.floor = frame.base →
      t.calls.frames.toList.Pairwise (·.base ≤ ·.base) →
      ((∃ ip t', leave count t = .ok ip t') ↔
        2 ≤ t.calls.frames.size ∧ t.stack.floor + count ≤ t.stack.depth) ∧
      ∀ e t', leave count t = .error e t' → t' = t) := by
  have room : count ≤ t.stack.available ↔ t.stack.floor + count ≤ t.stack.depth := by
    unfold OperandStack.available
    omega
  have short : 2 ≤ t.calls.frames.size → t.stack.depth < t.stack.floor + count →
      leave count t = .error .stackUnderflow t := by
    intro nested short
    exact leave_of_short_stack nested (by omega)
  refine ⟨?_, leave_of_one_frame, short, ?_, ?_⟩
  · rw [exists_leave_iff, room]
  · intro older caller frame frames above calls values
    have left := leave_of_frames frames (room.mpr above)
    refine ⟨?_, ?_, ?_⟩
    · intro missing
      rw [left, if_neg (by omega)]
    · intro fits higher
      have size : values.size = frame.base + count := OperandStack.depth_collapsed fits
      rw [left, if_pos fits, if_neg (by omega), ← size]
      rfl
    · intro fits reached
      rw [left, if_pos fits, if_pos reached]
      rfl
  · intro frame current floor ascending
    have succeeds : 2 ≤ t.calls.frames.size → count ≤ t.stack.available →
        ∃ ip t', leave count t = .ok ip t' :=
      fun nested above => exists_leave_of_in_step current floor ascending nested ground above
    constructor
    · constructor
      · rintro ⟨ip, t', done⟩
        obtain ⟨older, caller, _, frames, above, _⟩ := (exists_leave_iff count).mp ⟨ip, t', done⟩
        refine ⟨?_, room.mp above⟩
        rw [frames, Array.size_push, Array.size_push]
        omega
      · rintro ⟨nested, above⟩
        exact succeeds nested (room.mpr above)
    · intro e t' failed
      by_cases nested : 2 ≤ t.calls.frames.size
      · by_cases above : count ≤ t.stack.available
        · obtain ⟨ip, after, done⟩ := succeeds nested above
          cases done.symm.trans failed
        · cases (short nested (by omega)).symm.trans failed
          rfl
      · cases (leave_of_one_frame (by omega)).symm.trans failed
        rfl

theorem return_out_of_step_leaves_residue :
    outOfStep.stack.floor ≤ outOfStep.stack.depth ∧
    leave 1 outOfStep = .error .stackUnderflow
      ⟨⟨#[.int 1, .int 6], 8, 2⟩, ⟨#[.blank 0 0 3, .blank 6 3 3], 4, 3⟩⟩ ∧
    leave 2 outOfStep = .ok 12
      ⟨⟨#[.int 1, .int 5, .int 6], 8, 3⟩, ⟨#[.blank 0 0 3, .blank 6 3 3], 4, 3⟩⟩ ∧
    leave 3 outOfStep = .error .stackUnderflow outOfStep := by
  have ground : outOfStep.stack.floor ≤ outOfStep.stack.depth := by decide
  have frames : outOfStep.calls.frames =
      (Array.push #[.blank 0 0 3] (.blank 6 3 3)).push (.blank 12 1 3) := rfl
  refine ⟨ground, ?_, ?_, ?_⟩
  · exact ((return_leaves_known_residue ground 1).2.2.2.1 _ _ _ frames (by decide)).2.1
      (by decide) (by decide)
  · exact ((return_leaves_known_residue ground 2).2.2.2.1 _ _ _ frames (by decide)).2.2
      (by decide) (by decide)
  · exact (return_leaves_known_residue ground 3).2.2.1 (by decide) (by decide)

end Thread

end StackMachine
