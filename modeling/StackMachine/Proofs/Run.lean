import StackMachine.Machine.Run
import StackMachine.Proofs.Codec
import StackMachine.Proofs.Moves

namespace StackMachine

theorem Config.check_eq_ok_iff {c : Config} :
    c.check = .ok () ↔
      0 < c.maxStackDepth ∧ 0 < c.maxCallDepth ∧ c.localsPerFrame ≤ Config.maxLocals := by
  unfold Config.check
  constructor
  · intro checked
    split at checked
    · cases checked
    · split at checked
      · cases checked
      · split at checked
        · cases checked
        · omega
  · rintro ⟨stack, calls, locals⟩
    rw [if_neg (by omega), if_neg (by omega), if_neg (by omega)]

namespace Machine

variable {m m' : Machine}

theorem fetch_of_decode {i : Instr} {next : Nat} (decoded : m.code.decode m.ip = .ok (i, next)) :
    fetch m = .ok (i, next) (m.note (.dispatched m.ip i m.stack.depth)) := by
  unfold fetch
  rw [Action.get_bind, decoded]
  rfl

theorem fetch_of_error {e : Fault} (failed : m.code.decode m.ip = .error e) :
    fetch m = .error e m := by
  unfold fetch
  rw [Action.get_bind, failed]
  rfl

theorem cycle_of_decode {i : Instr} {next : Nat} (decoded : m.code.decode m.ip = .ok (i, next)) :
    cycle m = (exec i next >>= advance i next) (m.note (.dispatched m.ip i m.stack.depth)) :=
  Action.bind_of_ok (fetch_of_decode decoded)

theorem cycle_eq (coherent : m.Coherent) {i : Instr} {next : Nat}
    (decoded : m.code.decode m.ip = .ok (i, next)) :
    cycle m =
      match (m.note (.dispatched m.ip i m.stack.depth)).effect i next with
      | .ok (control, after) => advance i next control after
      | .error e => .error e (m.note (.dispatched m.ip i m.stack.depth)) := by
  have noted : (m.note (.dispatched m.ip i m.stack.depth)).Coherent := coherent
  rw [cycle_of_decode decoded]
  simp only [bind, EStateM.bind, exec_eq noted]
  cases (m.note (.dispatched m.ip i m.stack.depth)).effect i next <;> rfl

theorem cycle_eq_error (coherent : m.Coherent) {e : Fault} (failed : cycle m = .error e m') :
    m' = { m with journal := m'.journal } := by
  cases decoded : m.code.decode m.ip with
  | error fault =>
    have same := (Action.bind_of_error (fetch_of_error decoded)).symm.trans failed
    cases same
    rfl
  | ok pair =>
    obtain ⟨i, next⟩ := pair
    rw [cycle_eq coherent decoded] at failed
    split at failed
    · rename_i control after _
      cases control <;> cases failed
    · cases failed
      rfl

theorem effect_of_cycle (coherent : m.Coherent) {more : Bool} (done : cycle m = .ok more m') :
    ∃ i next control after, m.code.decode m.ip = .ok (i, next) ∧
      (m.note (.dispatched m.ip i m.stack.depth)).effect i next = .ok (control, after) ∧
      advance i next control after = .ok more m' := by
  cases decoded : m.code.decode m.ip with
  | error fault =>
    have same := (Action.bind_of_error (fetch_of_error decoded)).symm.trans done
    cases same
  | ok pair =>
    obtain ⟨i, next⟩ := pair
    rw [cycle_eq coherent decoded] at done
    split at done
    · rename_i control after result
      exact ⟨i, next, control, after, rfl, result, done⟩
    · cases done

structure Completes (i : Instr) (next : Nat) (m : Machine) (more : Bool) (m' : Machine) :
    Prop where
  decoded : m.code.decode m.ip = .ok (i, next)
  thread : Thread.Moves next i m.toThread m'.toThread
  code : m'.code = m.code
  config : m'.config = m.config
  phase : m'.phase = m.phase
  landing : m'.ip = next ∨ m'.ip < m.code.size ∨
    ∃ frame, m.calls.current? = some frame ∧ 1 < m.calls.frames.size ∧ m'.ip = frame.returnIp
  more_lt : more = true → m'.ip < m.code.size

theorem cycle_eq_ok (coherent : m.Coherent) {more : Bool} (done : cycle m = .ok more m') :
    ∃ i next, Completes i next m more m' := by
  obtain ⟨i, next, control, after, decoded, result, advanced⟩ := effect_of_cycle coherent done
  have noted : (m.note (.dispatched m.ip i m.stack.depth)).Coherent := coherent
  have advances := effect_advances noted.stack result
  have rest := advances.rest
  have target := advances.target
  have code : after.code = m.code := by rw [rest]; rfl
  have config : after.config = m.config := by rw [rest]; rfl
  have phase : after.phase = m.phase := by rw [rest]; rfl
  refine ⟨i, next, ?_⟩
  cases control with
  | halt =>
    cases advanced
    exact ⟨decoded, advances.thread, code, config, phase, .inl rfl, nofun⟩
  | proceed =>
    cases advanced
    refine ⟨decoded, advances.thread, code, config, phase, .inl rfl, ?_⟩
    intro inside
    rw [← code]
    exact of_decide_eq_true inside
  | jump offset =>
    cases advanced
    refine ⟨decoded, advances.thread, code, config, phase, .inr (target offset rfl), ?_⟩
    intro inside
    rw [← code]
    exact of_decide_eq_true inside

theorem Completes.coherent {i : Instr} {next : Nat} {more : Bool}
    (completes : Completes i next m more m') (coherent : m.Coherent) : m'.Coherent :=
  completes.thread.coherent coherent

/-- The turns of the run loop, and the start of a machine that is ready. -/
inductive Turn : Machine → Machine → Prop where
  | start {m : Machine} : m.phase = .ready →
      Turn m ({ m with phase := .running }.note (.started m.ip))
  | exhaust {m : Machine} {budget : Nat} : m.exhausted? = some budget →
      Turn m (m.exhaust budget).2
  | next {m m' : Machine} : cycle m = .ok true m' → Turn m m'
  | complete {m m' : Machine} : cycle m = .ok false m' → Turn m m'.complete.2
  | fail {m m' : Machine} {e : Fault} : cycle m = .error e m' → Turn m (m'.fail e m.ip).2

theorem slice_turns (fuel : Nat) (m : Machine) :
    Relation.ReflTransGen Turn m (slice fuel m).2 := by
  induction fuel generalizing m with
  | zero =>
    unfold slice
    cases exhausted : m.exhausted? with
    | some budget => exact .single (.exhaust exhausted)
    | none => exact .refl
  | succ fuel ih =>
    unfold slice
    cases exhausted : m.exhausted? with
    | some budget => exact .single (.exhaust exhausted)
    | none =>
      cases turn : cycle m with
      | error e m' => exact .single (.fail turn)
      | ok more m' =>
        cases more with
        | false => exact .single (.complete turn)
        | true => exact .head (.next turn) (ih m')

theorem runFor_turns (fuel : Nat) (m : Machine) :
    Relation.ReflTransGen Turn m (m.runFor fuel).2 := by
  unfold runFor
  cases phase : m.phase with
  | ready => exact .head (.start phase) (slice_turns fuel _)
  | running => exact slice_turns fuel m
  | halted finish => exact .refl
  | destroyed => exact .refl

theorem cycle_of_step (running : m.phase = .running) (yielded : m.step.1 = .yielded) :
    cycle m = .ok true m.step.2 := by
  simp only [step, runFor, running, slice] at yielded ⊢
  cases exhausted : m.exhausted? with
  | some budget =>
    simp only [exhausted] at yielded
    cases yielded
  | none =>
    cases turn : cycle m with
    | error e after =>
      simp only [exhausted, turn] at yielded
      cases yielded
    | ok more after =>
      cases more with
      | false =>
        simp only [exhausted, turn] at yielded
        cases yielded
      | true =>
        cases later : after.exhausted? with
        | some budget =>
          simp only [exhausted, turn, later] at yielded
          cases yielded
        | none => simp only [later]

/-- The states that a machine gets into by execution calls: by runs that finish, by slices and by
single steps, in any order. -/
inductive Reaches (m₀ : Machine) : Machine → Prop where
  | refl : Reaches m₀ m₀
  | run {m m' : Machine} {finish : Finish} :
      Reaches m₀ m → m.RunsTo finish m' → Reaches m₀ m'
  | runFor {m : Machine} (fuel : Nat) : Reaches m₀ m → Reaches m₀ (m.runFor fuel).2
  | step {m : Machine} : Reaches m₀ m → Reaches m₀ m.step.2

theorem Reaches.trans {m₀ : Machine} (first : m₀.Reaches m) (second : m.Reaches m') :
    m₀.Reaches m' := by
  induction second with
  | refl => exact first
  | run _ finished ih => exact .run ih finished
  | runFor fuel _ ih => exact .runFor fuel ih
  | step _ ih => exact .step ih

theorem Reaches.turns {m₀ : Machine} (reached : m₀.Reaches m) :
    Relation.ReflTransGen Turn m₀ m := by
  induction reached with
  | refl => exact .refl
  | run _ finished ih =>
    obtain ⟨fuel, ran⟩ := finished
    have turns := ih.trans (runFor_turns fuel _)
    rwa [ran] at turns
  | runFor fuel _ ih => exact ih.trans (runFor_turns fuel _)
  | step _ ih => exact ih.trans (runFor_turns 1 _)

/-- What every turn keeps holds of every state that is reached. -/
theorem Reaches.invariant {P : Machine → Prop} {m₀ : Machine} (reached : m₀.Reaches m)
    (initial : P m₀) (kept : ∀ {m m'}, P m → Turn m m' → P m') : P m := by
  have turns := reached.turns
  clear reached
  induction turns with
  | refl => exact initial
  | tail _ turn ih => exact kept ih turn

theorem Reaches.of_slices {P : Machine → Prop} {m₀ : Machine} (reached : m₀.Reaches m)
    (initial : P m₀) (kept : ∀ {m} fuel, P m → P (m.runFor fuel).2) : P m := by
  induction reached with
  | refl => exact initial
  | run _ finished ih =>
    obtain ⟨fuel, ran⟩ := finished
    have after := kept fuel ih
    rwa [ran] at after
  | runFor fuel _ ih => exact kept fuel ih
  | step _ ih => exact kept 1 ih

theorem Turn.thread_cases (turn : Turn m m') (coherent : m.Coherent) :
    m'.toThread = m.toThread ∨ ∃ i next, Thread.Moves next i m.toThread m'.toThread := by
  cases turn with
  | start _ => exact .inl rfl
  | exhaust _ => exact .inl rfl
  | next done =>
    obtain ⟨i, next, completes⟩ := cycle_eq_ok coherent done
    exact .inr ⟨i, next, completes.thread⟩
  | complete done =>
    obtain ⟨i, next, completes⟩ := cycle_eq_ok coherent done
    exact .inr ⟨i, next, completes.thread⟩
  | fail failed =>
    have same := cycle_eq_error coherent failed
    rw [same]
    exact .inl rfl

theorem Turn.coherent (turn : Turn m m') (coherent : m.Coherent) : m'.Coherent := by
  rcases turn.thread_cases coherent with same | ⟨_, _, moves⟩
  · rw [same]
    exact coherent
  · exact moves.coherent coherent

theorem ofParts_eq_ok {journal : Journal} {code : Code} {stack : OperandStack} {heap : Heap}
    {config : Config} (made : ofParts journal code stack heap config = .ok m) :
    0 < code.size ∧ ({ config with maxStackDepth := stack.maxDepth, heapBudget := heap.budget } :
      Config).check = .ok () ∧ ∃ journal, m =
      { stack := stack
        calls := .root config.maxCallDepth config.localsPerFrame
        code := code
        config := { config with maxStackDepth := stack.maxDepth, heapBudget := heap.budget }
        heap := heap
        ip := 0
        phase := .ready
        counters := .zero
        journal := journal } := by
  unfold ofParts at made
  dsimp only at made
  split at made
  · cases made
  · rename_i checked
    split at made
    · cases made
    · rename_i nonempty
      cases made
      exact ⟨Nat.pos_of_ne_zero nonempty, checked, _, rfl⟩

theorem exists_create {code : Code} {config : Config} (checked : config.check = .ok ())
    (nonempty : 0 < code.size) (journal : Journal) :
    ∃ m, create journal code config = .ok m := by
  cases result : create journal code config with
  | ok m => exact ⟨m, rfl⟩
  | error e =>
    unfold create ofParts at result
    dsimp only at result
    split at result
    · rename_i fault failed
      have clash : (.error fault : Except Fault Unit) = .ok () := failed.symm.trans checked
      cases clash
    · rw [if_neg (Nat.ne_of_gt nonempty)] at result
      cases result

end Machine

end StackMachine
