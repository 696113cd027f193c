import StackMachine.Proofs.Atomicity
import StackMachine.Proofs.Isolation
import StackMachine.Proofs.Slices

namespace StackMachine

namespace Thread

variable {host : OperandStack} {t t' : Thread} {i : Instr} {next : Nat}

/-- The root frame begins at the bottom of the stack. In a call the floor is where its frame begins;
at the root it may be higher. -/
structure Grounded (t : Thread) : Prop extends t.Coherent where
  root : ∀ frame, t.calls.frames[0]? = some frame → frame.base = 0
  floor_eq : 1 < t.calls.frames.size → t.stack.floor = t.calls.base

/-- What `host` has below its floor is at the bottom of the stack, and neither the floor nor a call
reaches down to it. -/
structure Guards (host : OperandStack) (t : Thread) : Prop where
  floor_le : host.floor ≤ t.stack.floor
  values : t.stack.values.extract 0 host.floor = host.values.extract 0 host.floor
  nested : ∀ k frame, 0 < k → t.calls.frames[k]? = some frame → host.floor ≤ frame.base

theorem frame_of_assigned {frame after : Frame} {index k : Nat} {v : Value}
    (current : t.calls.current? = some frame)
    (found : (t.assigned frame index v).calls.frames[k]? = some after) :
    ∃ before, t.calls.frames[k]? = some before ∧ before.base = after.base := by
  have frames := CallStack.frames_of_current current
  simp only [assigned, Array.getElem?_push] at found
  rw [frames, Array.getElem?_push]
  split at found
  · rename_i last
    cases found
    exact ⟨frame, if_pos last, rfl⟩
  · rename_i older
    exact ⟨after, by rw [if_neg older]; exact found, rfl⟩

theorem Grounded.base_at_root (grounded : t.Grounded) (single : t.calls.frames.size = 1) :
    t.calls.base = 0 := by
  obtain ⟨frame, current⟩ := CallStack.exists_current grounded.rooted
  rw [CallStack.base_of_current current]
  rw [CallStack.current?, Array.back?_eq_getElem?, single] at current
  exact grounded.root frame current

theorem Moves.grounded (moves : Moves next i t t') (grounded : t.Grounded) : t'.Grounded := by
  have coherent := moves.coherent grounded.toCoherent
  have rooted := grounded.rooted
  cases moves with
  | replace above room => exact ⟨coherent, grounded.root, grounded.floor_eq⟩
  | @assign t frame index v current above =>
    refine ⟨coherent, ?_, ?_⟩
    · intro after found
      obtain ⟨before, first, same⟩ := frame_of_assigned current found
      rw [← same]
      exact grounded.root before first
    · intro deep
      simp only [assigned, Array.size_push, Array.size_pop] at deep
      have floor := grounded.floor_eq (by omega)
      rw [CallStack.base_of_current current] at floor
      simpa [assigned, CallStack.base, CallStack.current?] using floor
  | enter checked =>
    refine ⟨coherent, ?_, ?_⟩
    · intro frame found
      simp only [entered, Array.getElem?_push] at found
      rw [if_neg (Nat.ne_of_lt rooted)] at found
      exact grounded.root frame found
    · intro _
      simp [entered, CallStack.base, CallStack.current?, newFrame]
  | leave checked =>
    refine ⟨coherent, ?_, fun _ => rfl⟩
    intro frame found
    simp only [departed, CallStack.popped, Array.getElem?_pop] at found
    split at found
    · exact grounded.root frame found
    · cases found

theorem Guards.moves (guards : t.Guards host) (moves : Moves next i t t') (grounded : t.Grounded) :
    t'.Guards host ∨
      t.calls.depth = 1 ∧ t'.calls.depth = 0 ∧ t'.stack.floor = 0 := by
  have after := moves.grounded grounded
  have floor := guards.floor_le
  have depth := grounded.stack.floor_le
  have replaced : ∀ {k out}, k ≤ t.stack.available →
      (t.stack.replaceTop k out).values.extract 0 host.floor =
        host.values.extract 0 host.floor := by
    intro k out above
    unfold OperandStack.available at above
    rw [OperandStack.extract_replaceTop (by omega)]
    exact guards.values
  cases moves with
  | replace above room => exact .inl ⟨floor, replaced above, guards.nested⟩
  | @assign t frame index v current above =>
    refine .inl ⟨floor, replaced above, ?_⟩
    intro k frame inner found
    obtain ⟨before, earlier, same⟩ := frame_of_assigned current found
    rw [← same]
    exact guards.nested k before inner earlier
  | enter checked =>
    obtain ⟨_, _, above⟩ := checkEnter_eq_ok checked
    have kept := above
    unfold OperandStack.available at above
    refine .inl ⟨?_, replaced kept, ?_⟩
    · simp only [entered]
      omega
    · intro k frame inner found
      simp only [entered, Array.getElem?_push] at found
      split at found
      · cases found
        simp only [newFrame]
        omega
      · exact guards.nested k frame inner found
  | @leave t frame count checked =>
    obtain ⟨nested, above, current⟩ := checkLeave_eq_ok checked
    by_cases single : t.calls.frames.size = 2
    · have root : t.calls.popped.frames.size = 1 := by
        rw [CallStack.popped, Array.size_pop, single]
      refine .inr ⟨?_, ?_, after.base_at_root root⟩
      · rw [CallStack.depth, single]
      · exact congrArg (· - 1) root
    · -- The caller is in a call itself, and its frame begins above the values of the host.
      obtain ⟨caller, previous⟩ := CallStack.exists_current after.rooted
      have ground := grounded.base_le
      rw [CallStack.base_of_current current] at ground
      have left : ∀ {k older}, 0 < k → t.calls.popped.frames[k]? = some older →
          host.floor ≤ older.base := by
        intro k older inner found
        simp only [CallStack.popped, Array.getElem?_pop] at found
        split at found
        · exact guards.nested k older inner found
        · cases found
      have below : host.floor ≤ caller.base := by
        rw [CallStack.current?, Array.back?_eq_getElem?] at previous
        apply left _ previous
        simp only [departed, CallStack.popped, Array.size_pop]
        omega
      have higher := CallStack.base_popped_le grounded.ascending current
      have base : t.calls.popped.base = caller.base := CallStack.base_of_current previous
      refine .inl ⟨?_, ?_, fun k older => left⟩
      · simp only [departed]
        omega
      · rw [← guards.values]
        exact OperandStack.extract_collapsed (by omega) (by omega)

end Thread

namespace Machine

variable {m m₀ : Machine} {journal : Journal} {code : Code} {stack : OperandStack} {heap : Heap}
  {config : Config}

theorem ofParts_grounded (built : stack.Built)
    (made : ofParts journal code stack heap config = .ok m) :
    m.toThread.Grounded ∧ m.toThread.Guards stack := by
  have coherent := ofParts_coherent built made
  obtain ⟨_, _, _, rfl⟩ := ofParts_eq_ok made
  refine ⟨⟨coherent, ?_, fun nested => absurd nested (Nat.lt_irrefl 1)⟩, Nat.le_refl _, rfl, ?_⟩
  · intro frame found
    cases found
    rfl
  · intro k frame inner found
    obtain ⟨inside, _⟩ := Array.getElem?_eq_some_iff.mp found
    exact absurd inside (Nat.not_lt_of_le inner)

theorem Turn.grounded {m' : Machine} (turn : Turn m m') (grounded : m.toThread.Grounded) :
    m'.toThread.Grounded := by
  rcases turn.thread_cases grounded.toCoherent with same | ⟨_, _, moves⟩
  · rw [same]
    exact grounded
  · exact moves.grounded grounded

theorem Reaches.grounded (built : stack.Built)
    (made : ofParts journal code stack heap config = .ok m₀) (reached : m₀.Reaches m) :
    m.toThread.Grounded :=
  reached.invariant (ofParts_grounded built made).1 fun grounded turn => turn.grounded grounded

/-- A step of this machine returns to the root, and with that takes the floor to the bottom. -/
structure ReturnsToRoot (m : Machine) : Prop where
  nested : m.calls.depth = 1
  root : m.step.2.calls.depth = 0
  floor : m.step.2.stack.floor = 0

theorem guards_of_step (grounded : m.toThread.Grounded) (running : m.phase = .running)
    (guards : m.toThread.Guards stack) :
    m.step.2.toThread.Guards stack ∨ m.ReturnsToRoot := by
  rcases step_cases grounded.toCoherent running with ⟨thread, _⟩ | ⟨_, after, _, done, thread, _⟩
  · rw [thread]
    exact .inl guards
  · obtain ⟨_, _, completes⟩ := cycle_eq_ok grounded.toCoherent done
    have moves := completes.thread
    rw [← thread] at moves
    rcases guards.moves moves grounded with kept | ⟨nested, root, floor⟩
    · exact .inl kept
    · exact .inr ⟨nested, root, floor⟩

theorem Reaches.guards (built : stack.Built)
    (made : ofParts journal code stack heap config = .ok m₀) (reached : m₀.Reaches m) :
    m.toThread.Guards stack ∨
      ∃ before, m₀.Reaches before ∧ before.ReturnsToRoot ∧ before.step.2.Reaches m := by
  refine Reaches.stepwise (P := fun m => m.toThread.Guards stack ∨ ∃ before, m₀.Reaches before ∧
    before.ReturnsToRoot ∧ before.step.2.Reaches m) reached ?_ ?_ ?_
  · exact .inl (ofParts_grounded built made).2
  · rintro m visited (guards | ⟨before, earlier, returns, later⟩)
    · rw [(runFor_zero_keeps m).1]
      exact .inl guards
    · exact .inr ⟨before, earlier, returns, .runFor 0 later⟩
  · rintro m visited running (guards | ⟨before, earlier, returns, later⟩)
    · rcases guards_of_step (visited.grounded built made) running guards with kept | returns
      · exact .inl kept
      · exact .inr ⟨m, visited, returns, .refl⟩
    · exact .inr ⟨before, earlier, returns, .step later⟩

/-- The values that the host has put below its floor stay there, with the floor above them, until a
call from the root returns and takes the floor to the bottom. A call restores the floor that it
found, but for a call from the root. -/
theorem host_values_kept_until_return (built : stack.Built)
    (made : ofParts journal code stack heap config = .ok m₀) (reached : m₀.Reaches m) :
    (stack.floor ≤ m.stack.depth ∧ stack.floor ≤ m.stack.floor ∧
        m.stack.values.extract 0 stack.floor = stack.values.extract 0 stack.floor ∨
      ∃ before, m₀.Reaches before ∧ before.ReturnsToRoot ∧ before.step.2.Reaches m) ∧
    ∀ target argc next more s₁ s count behind more' s',
      m.code.decode m.ip = .ok (.call target argc, next) → cycle m = .ok more s₁ →
      CompletesWithin (m.calls.depth + 1) s₁ s →
      s.code.decode s.ip = .ok (.ret count, behind) → s.calls.depth = m.calls.depth + 1 →
      cycle s = .ok more' s' →
      s'.stack.floor = if m.calls.depth = 0 then 0 else m.stack.floor := by
  have grounded := reached.grounded built made
  have coherent := grounded.toCoherent
  have rooted := grounded.rooted
  constructor
  · rcases reached.guards built made with guards | returned
    · have depth := grounded.stack.floor_le
      have floor := guards.floor_le
      exact .inl ⟨by omega, floor, guards.values⟩
    · exact .inr returned
  · intro target argc next more s₁ s count behind more' s' decoded called within returns exactly
      done
    obtain ⟨checked, entered⟩ := cycle_call coherent decoded called
    obtain ⟨_, _, above⟩ := Thread.checkEnter_eq_ok checked
    have size : m.calls.depth + 1 = m.calls.frames.size := by
      unfold CallStack.depth
      omega
    rw [size] at within
    have inside := within.inside (entered ▸ coherent.inside_entered above)
    obtain ⟨frame, left, departed, _⟩ := cycle_ret inside.toCoherent returns done
    have last : s.calls.frames.size = m.calls.frames.size + 1 := by
      unfold CallStack.depth at exactly
      omega
    obtain ⟨_, _, ground, _⟩ := inside.departed last left
    rw [departed, ground]
    by_cases root : m.calls.depth = 0
    · rw [if_pos root]
      exact grounded.base_at_root (by omega)
    · rw [if_neg root]
      exact (grounded.floor_eq (by omega)).symm

/-- A machine over a host stack with one value below its floor. Its program makes a call from the
root that returns at once, and then pops a value. -/
def poppingAfterReturn : Machine where
  stack := guardedStack
  calls := .root Config.standard.maxCallDepth Config.standard.localsPerFrame
  code := .encode [.call 8 0, .pop, .halt, .ret 0]
  config := { Config.standard with maxStackDepth := 8, heapBudget := 64 }
  heap := .empty 64
  ip := 0
  phase := .ready
  counters := .zero
  journal := .empty none

def atRootCall : Machine := (poppingAfterReturn.runFor 0).2

theorem return_to_root_loses_host_floor :
    guardedStack.Built ∧ guardedStack.floor = 1 ∧
    ofParts (.empty none) poppingAfterReturn.code guardedStack (.empty 64) .standard =
      .ok poppingAfterReturn ∧
    atRootCall.stack.floor = 1 ∧ cycle atRootCall = .ok true atRootCall.step.2 ∧
    cycle atRootCall.step.2 = .ok true atRootCall.step.2.step.2 ∧
    atRootCall.step.2.step.2.stack.floor = 0 ∧
    (poppingAfterReturn.runFor 3).2.stack.values = #[] ∧
    ∃ before, poppingAfterReturn.Reaches before ∧ before.ReturnsToRoot ∧
      before.step.2.Reaches (poppingAfterReturn.runFor 3).2 := by
  have built : guardedStack.Built := .apply _ (.apply _ (.empty 8))
  have made : ofParts (.empty none) poppingAfterReturn.code guardedStack (.empty 64) .standard =
      .ok poppingAfterReturn := rfl
  have decoded : atRootCall.code.decode atRootCall.ip = .ok (.call 8 0, 6) := by cbv
  have called : cycle atRootCall = .ok true atRootCall.step.2 :=
    cycle_of_step (by decide +kernel) (by decide +kernel)
  have returning : atRootCall.step.2.code.decode atRootCall.step.2.ip = .ok (.ret 0, 10) := by cbv
  have returned : cycle atRootCall.step.2 = .ok true atRootCall.step.2.step.2 :=
    cycle_of_step (by decide +kernel) (by decide +kernel)
  have floor := (host_values_kept_until_return built made (.runFor 0 .refl)).2 _ _ _ _ _ _ _ _ _ _
    decoded called (.refl (by decide +kernel)) returning (by decide +kernel) returned
  have popped : (poppingAfterReturn.runFor 3).2.stack.depth = 0 := by decide +kernel
  refine ⟨built, rfl, made, by decide +kernel, called, returned, floor, by decide +kernel, ?_⟩
  rcases (host_values_kept_until_return built made (.runFor 3 .refl)).1 with ⟨kept, _⟩ | earlier
  · rw [popped] at kept
    exact absurd kept (by decide)
  · exact earlier

theorem host_value_lost_after_return :
    guardedStack.Built ∧ guardedStack.floor = 1 ∧ guardedStack.depth = 1 ∧
    ofParts (.empty none) poppingAfterReturn.code guardedStack (.empty 64) .standard =
      .ok poppingAfterReturn ∧
    ∃ m, poppingAfterReturn.Reaches m ∧ ¬ (guardedStack.floor ≤ m.stack.depth ∧
      guardedStack.floor ≤ m.stack.floor ∧
      m.stack.values.extract 0 guardedStack.floor =
        guardedStack.values.extract 0 guardedStack.floor) ∧
      m.phase = .halted .completed :=
  ⟨.apply _ (.apply _ (.empty 8)), rfl, rfl, rfl, _, .runFor 5 .refl, by decide +kernel,
    by decide +kernel⟩

end Machine

end StackMachine
