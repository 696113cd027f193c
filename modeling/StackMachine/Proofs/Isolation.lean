import StackMachine.Proofs.Safety

namespace StackMachine

theorem extract_pop {α : Type} {values : Array α} {n : Nat} (bound : n < values.size) :
    values.pop.extract 0 n = values.extract 0 n := by
  apply Array.ext
  · simp
    omega
  · intro i inLeft inRight
    simp

namespace Thread

/-- The thread of a call that has begun above the bottom `base` values of `caller`, to come back to
`returnIp`, and of the calls that it makes. -/
structure Inside (t caller : Thread) (base returnIp : Nat) : Prop extends t.Coherent where
  limits : t.calls.maxDepth = caller.calls.maxDepth ∧
    t.calls.localsPerFrame = caller.calls.localsPerFrame
  older : t.calls.frames.extract 0 caller.calls.frames.size = caller.calls.frames
  callee : ∃ frame, t.calls.frames[caller.calls.frames.size]? = some frame ∧
    frame.base = base ∧ frame.returnIp = returnIp
  values : t.stack.values.extract 0 base = caller.stack.values.extract 0 base

variable {caller t t' : Thread} {base returnIp : Nat}

theorem Inside.base_le_floor (inside : t.Inside caller base returnIp) : base ≤ t.stack.floor := by
  obtain ⟨frame, found, same, _⟩ := inside.callee
  have member : frame ∈ t.calls.frames.toList :=
    Array.mem_toList_iff.mpr (Array.mem_of_getElem? found)
  have below := CallStack.base_le_current inside.ascending frame member
  have floor := inside.base_le
  omega

theorem Inside.replaced (inside : t.Inside caller base returnIp) {k : Nat} {out : Array Value}
    (above : k ≤ t.stack.available) :
    (t.stack.replaceTop k out).values.extract 0 base = caller.stack.values.extract 0 base := by
  have floor := inside.base_le_floor
  have depth := inside.stack.floor_le
  unfold OperandStack.available at above
  rw [OperandStack.extract_replaceTop (by omega)]
  exact inside.values

theorem Coherent.inside_entered (coherent : t.Coherent) {argc : Nat}
    (above : argc ≤ t.stack.available) :
    (t.entered returnIp argc).Inside t (t.stack.depth - argc) returnIp := by
  refine ⟨coherent.entered above, ⟨rfl, rfl⟩, ?_, ⟨t.newFrame returnIp argc, ?_, rfl, rfl⟩, ?_⟩
  · simp [Thread.entered]
  · simp [Thread.entered]
  · exact OperandStack.extract_replaceTop (Nat.le_refl _)

theorem Inside.moves (inside : t.Inside caller base returnIp) {i : Instr} {next : Nat}
    (moves : Moves next i t t') (deep : caller.calls.frames.size < t'.calls.frames.size) :
    t'.Inside caller base returnIp := by
  have coherent := moves.coherent inside.toCoherent
  have floor := inside.base_le_floor
  have depth := inside.stack.floor_le
  obtain ⟨callee, found, base_eq, returnIp_eq⟩ := inside.callee
  obtain ⟨within, _⟩ := Array.getElem?_eq_some_iff.mp found
  cases moves with
  | replace above room =>
    exact ⟨coherent, inside.limits, inside.older, inside.callee, inside.replaced above⟩
  | @assign t frame index v current above =>
    refine ⟨coherent, inside.limits, ?_, ?_, inside.replaced above⟩
    · have room : caller.calls.frames.size ≤ t.calls.frames.pop.size := by
        rw [Array.size_pop]
        omega
      simp only [assigned]
      rw [Array.extract_push_of_le room, extract_pop within]
      exact inside.older
    · have same := CallStack.frames_of_current current
      rw [same, Array.getElem?_push] at found
      simp only [assigned, Array.getElem?_push]
      split at found
      · rename_i last
        cases found
        exact ⟨_, if_pos last, base_eq, returnIp_eq⟩
      · rename_i older
        exact ⟨callee, by rw [if_neg older]; exact found, base_eq, returnIp_eq⟩
  | enter checked =>
    obtain ⟨_, _, above⟩ := checkEnter_eq_ok checked
    refine ⟨coherent, inside.limits, ?_, ⟨callee, ?_, base_eq, returnIp_eq⟩, inside.replaced above⟩
    · simp only [entered]
      rw [Array.extract_push_of_le (by omega)]
      exact inside.older
    · simp only [entered]
      rw [Array.getElem?_push, if_neg (Nat.ne_of_lt within)]
      exact found
  | @leave t frame count checked =>
    obtain ⟨nested, above, current⟩ := checkLeave_eq_ok checked
    simp only [departed, CallStack.popped, Array.size_pop] at deep
    have kept : t.calls.frames.pop[caller.calls.frames.size]? = some callee := by
      rw [Array.getElem?_pop, if_pos deep]
      exact found
    refine ⟨coherent, inside.limits, ?_, ⟨callee, kept, base_eq, returnIp_eq⟩, ?_⟩
    · simp only [departed, CallStack.popped]
      rw [extract_pop within]
      exact inside.older
    · -- The frame that is left lies above the callee, so the stack collapses above the caller.
      have member : callee ∈ t.calls.frames.pop.toList :=
        Array.mem_toList_iff.mpr (Array.mem_of_getElem? kept)
      have below := CallStack.older_base_le inside.ascending current callee member
      have ground := inside.base_le
      rw [CallStack.base_of_current current] at ground
      rw [← inside.values]
      exact OperandStack.extract_collapsed (by omega) (by omega)

theorem Inside.departed (inside : t.Inside caller base returnIp) {count : Nat} {frame : Frame}
    (last : t.calls.frames.size = caller.calls.frames.size + 1)
    (checked : t.checkLeave count = .ok frame) :
    base + count ≤ t.stack.depth ∧
    (t.departed frame count).stack.values = caller.stack.values.extract 0 base ++
      t.stack.values.extract (t.stack.depth - count) t.stack.depth ∧
    (t.departed frame count).stack.floor = caller.calls.base ∧
    (t.departed frame count).calls = caller.calls ∧ frame.returnIp = returnIp := by
  obtain ⟨_, above, current⟩ := checkLeave_eq_ok checked
  obtain ⟨callee, found, base_eq, returnIp_eq⟩ := inside.callee
  have floor := inside.base_le_floor
  have depth := inside.stack.floor_le
  have same : callee = frame := by
    rw [CallStack.current?, Array.back?_eq_getElem?, last, Nat.add_sub_cancel, found] at current
    exact Option.some.inj current
  subst same
  have frames : t.calls.frames.pop = caller.calls.frames := by
    have kept := inside.older
    have size : caller.calls.frames.size = t.calls.frames.size - 1 := by omega
    rw [size] at kept
    rw [← kept, Array.extract_eq_pop rfl]
  have calls : t.calls.popped = caller.calls := by
    obtain ⟨maxDepth, localsPerFrame⟩ := inside.limits
    rw [CallStack.popped, frames, maxDepth, localsPerFrame]
  unfold OperandStack.available at above
  refine ⟨by omega, ?_, ?_, calls, returnIp_eq⟩
  · rw [← inside.values, ← base_eq]
    rfl
  · exact congrArg CallStack.base calls

end Thread

namespace Machine

variable {m m' : Machine}

theorem cycle_call (coherent : m.Coherent) {target : UInt32} {argc : UInt8} {next : Nat}
    {more : Bool} (decoded : m.code.decode m.ip = .ok (.call target argc, next))
    (done : cycle m = .ok more m') :
    m.checkEnter argc.toNat = .ok () ∧ m'.toThread = m.entered next argc.toNat := by
  rw [cycle_eq coherent decoded] at done
  split at done
  · rename_i control after result
    obtain ⟨_, _, rest⟩ := Action.bind_eq_ok result
    obtain ⟨_, checked, last⟩ := Action.map_eq_ok rest
    cases last
    cases done
    exact ⟨checked, rfl⟩
  · cases done

theorem cycle_ret (coherent : m.Coherent) {count : UInt8} {next : Nat} {more : Bool}
    (decoded : m.code.decode m.ip = .ok (.ret count, next)) (done : cycle m = .ok more m') :
    ∃ frame, m.checkLeave count.toNat = .ok frame ∧
      m'.toThread = m.departed frame count.toNat ∧ m'.ip = frame.returnIp := by
  rw [cycle_eq coherent decoded] at done
  split at done
  · rename_i control after result
    obtain ⟨frame, checked, last⟩ := Action.map_eq_ok result
    cases last
    cases done
    exact ⟨frame, checked, rfl, rfl⟩
  · cases done

/-- One instruction after the other is completed, and the call depth never falls below `depth`. -/
inductive CompletesWithin (depth : Nat) : Machine → Machine → Prop where
  | refl {m : Machine} : depth ≤ m.calls.depth → CompletesWithin depth m m
  | step {m m' m'' : Machine} {more : Bool} :
      CompletesWithin depth m m' → cycle m' = .ok more m'' → depth ≤ m''.calls.depth →
      CompletesWithin depth m m''

theorem CompletesWithin.inside {caller : Thread} {base returnIp : Nat}
    (within : CompletesWithin caller.calls.frames.size m m')
    (inside : m.toThread.Inside caller base returnIp) :
    m'.toThread.Inside caller base returnIp := by
  induction within with
  | refl _ => exact inside
  | step _ done deep ih =>
    obtain ⟨_, _, completes⟩ := cycle_eq_ok ih.toCoherent done
    have rooted := (completes.coherent ih.toCoherent).rooted
    apply ih.moves completes.thread
    unfold CallStack.depth at deep
    omega

/-- From a call to its return, the caller's values and frames are what they were at the call; and
the return leaves them with its results on top, back behind the call. -/
theorem call_isolates_caller {journal : Journal} {code : Code} {config : Config}
    {m₀ s₀ s₁ s : Machine} {target : UInt32} {argc : UInt8} {next : Nat} {more : Bool}
    (made : create journal code config = .ok m₀) (reached : m₀.Reaches s₀)
    (decoded : s₀.code.decode s₀.ip = .ok (.call target argc, next))
    (called : cycle s₀ = .ok more s₁) (within : CompletesWithin (s₀.calls.depth + 1) s₁ s) :
    (argc.toNat ≤ s₀.stack.depth ∧ s₀.stack.depth - argc.toNat ≤ s.stack.depth ∧
      s.stack.values.extract 0 (s₀.stack.depth - argc.toNat) =
        s₀.stack.values.extract 0 (s₀.stack.depth - argc.toNat) ∧
      s.calls.frames.extract 0 (s₀.calls.depth + 1) = s₀.calls.frames) ∧
    ∀ count behind more' s', s.code.decode s.ip = .ok (.ret count, behind) →
      s.calls.depth = s₀.calls.depth + 1 → cycle s = .ok more' s' →
      s₀.stack.depth - argc.toNat + count.toNat ≤ s.stack.depth ∧
      s'.stack.values = s₀.stack.values.extract 0 (s₀.stack.depth - argc.toNat) ++
        s.stack.values.extract (s.stack.depth - count.toNat) s.stack.depth ∧
      s'.stack.floor = s₀.stack.floor ∧ s'.calls = s₀.calls ∧ s'.ip = s₀.ip + 6 := by
  have sound := (reached.safe made).thread
  have rooted := sound.rooted
  have size : s₀.calls.depth + 1 = s₀.calls.frames.size := by
    unfold CallStack.depth
    omega
  obtain ⟨checked, entered⟩ := cycle_call sound.toCoherent decoded called
  obtain ⟨_, _, above⟩ := Thread.checkEnter_eq_ok checked
  rw [size] at within ⊢
  have inside := within.inside (entered ▸ sound.toCoherent.inside_entered above)
  have floor := inside.base_le_floor
  have depth := inside.stack.floor_le
  unfold OperandStack.available at above
  refine ⟨⟨by omega, by omega, inside.values, inside.older⟩, ?_⟩
  intro count behind more' s' returns exactly done
  obtain ⟨frame, left, departed, ip⟩ := cycle_ret inside.toCoherent returns done
  have last : s.calls.frames.size = s₀.calls.frames.size + 1 := by
    unfold CallStack.depth at exactly
    omega
  obtain ⟨results, values, ground, calls, back⟩ := inside.departed last left
  have six : next = s₀.ip + 6 := (Code.decode_next decoded).1
  rw [departed, ip, back, six, ground, ← sound.floor_eq]
  exact ⟨results, values, rfl, calls, rfl⟩

/-- A machine for a call with one argument of two values. The callee makes a call of its own before
it returns its argument. -/
def nestedCalls : Machine where
  stack := .empty 8
  calls := .root 4 2
  code := .encode [.push 7, .push 8, .call 17 1, .halt, .load 0, .call 27 0, .ret 1, .ret 0]
  config := { Config.withLimits 8 4 64 with localsPerFrame := 2 }
  heap := .empty 64
  ip := 0
  phase := .ready
  counters := .zero
  journal := .empty none

def atCall : Machine := (nestedCalls.runFor 2).2

def atReturn : Machine := atCall.step.2.step.2.step.2.step.2

theorem nested_calls_isolate_caller :
    create (.empty none) nestedCalls.code nestedCalls.config = .ok nestedCalls ∧
    CompletesWithin (atCall.calls.depth + 1) atCall.step.2 atReturn ∧
    atReturn.stack.values.extract 0 1 = atCall.stack.values.extract 0 1 ∧
    atReturn.calls.frames.extract 0 1 = atCall.calls.frames ∧
    atReturn.step.2.stack.values = #[.int 7, .int 8] ∧
    atReturn.step.2.calls = atCall.calls ∧ atReturn.step.2.ip = atCall.ip + 6 := by
  have made : create (.empty none) nestedCalls.code nestedCalls.config = .ok nestedCalls := rfl
  have reached : nestedCalls.Reaches atCall := .runFor 2 .refl
  have decoded : atCall.code.decode atCall.ip = .ok (.call 17 1, 16) := by cbv
  have called : cycle atCall = .ok true atCall.step.2 :=
    cycle_of_step (by decide +kernel) (by decide +kernel)
  have within : CompletesWithin (atCall.calls.depth + 1) atCall.step.2 atReturn := by
    refine .step (.step (.step (.refl ?_) (cycle_of_step ?_ ?_) ?_) (cycle_of_step ?_ ?_) ?_)
      (cycle_of_step ?_ ?_) ?_
    all_goals decide +kernel
  have returning : atReturn.code.decode atReturn.ip = .ok (.ret 1, 27) := by cbv
  have returned : cycle atReturn = .ok true atReturn.step.2 :=
    cycle_of_step (by decide +kernel) (by decide +kernel)
  obtain ⟨⟨_, _, values, frames⟩, returns⟩ :=
    call_isolates_caller made reached decoded called within
  obtain ⟨_, results, _, calls, ip⟩ :=
    returns 1 27 true atReturn.step.2 returning (by decide +kernel) returned
  refine ⟨made, within, values, frames, ?_, calls, ip⟩
  rw [results]
  decide +kernel

end Machine

end StackMachine
