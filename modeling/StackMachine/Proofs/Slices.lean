import StackMachine.Proofs.Local

namespace StackMachine.Machine

variable {m m' : Machine} {fuel : Nat} {finish : Finish}

def resume (next : Machine → Outcome × Machine) : Outcome × Machine → Outcome × Machine
  | (.yielded, m) => next m
  | (.finished finish, m) => (.finished finish, m)

def runSlices : List Nat → Machine → Outcome × Machine
  | [], m => (.yielded, m)
  | fuel :: rest, m => resume (runSlices rest) (m.runFor fuel)

theorem slice_of_exhausted {budget : Nat} (exhausted : m.exhausted? = some budget) (fuel : Nat) :
    slice fuel m = m.exhaust budget := by
  cases fuel <;> simp only [slice, exhausted]

theorem slice_zero (unlimited : m.exhausted? = none) : slice 0 m = (.yielded, m) := by
  simp only [slice, unlimited]

theorem slice_next (unlimited : m.exhausted? = none) (turn : cycle m = .ok true m') (fuel : Nat) :
    slice (fuel + 1) m = slice fuel m' := by
  simp only [slice, unlimited, turn]

/-- What holds of a slice that ends at once, and of a slice when it holds of the rest behind its
first instruction, holds of every slice. -/
theorem slice_induction {P : Machine → Outcome × Machine → Prop}
    (exhaust : ∀ {m budget}, m.exhausted? = some budget → P m (m.exhaust budget))
    (yield : ∀ {m}, P m (.yielded, m))
    (complete : ∀ {m m'}, cycle m = .ok false m' → P m m'.complete)
    (fail : ∀ {m m' e}, cycle m = .error e m' → P m (m'.fail e m.ip))
    (next : ∀ {m m' result}, cycle m = .ok true m' → P m' result → P m result)
    (fuel : Nat) (m : Machine) : P m (slice fuel m) := by
  induction fuel generalizing m with
  | zero =>
    cases exhausted : m.exhausted? with
    | some budget =>
      rw [slice_of_exhausted exhausted]
      exact exhaust exhausted
    | none =>
      rw [slice_zero exhausted]
      exact yield
  | succ fuel ih =>
    cases exhausted : m.exhausted? with
    | some budget =>
      rw [slice_of_exhausted exhausted]
      exact exhaust exhausted
    | none =>
      cases turn : cycle m with
      | error e after =>
        simp only [slice, exhausted, turn]
        exact fail turn
      | ok more after =>
        cases more with
        | false =>
          simp only [slice, exhausted, turn]
          exact complete turn
        | true =>
          rw [slice_next exhausted turn]
          exact next turn (ih after)

theorem loop_next (unlimited : m.exhausted? = none) (turn : cycle m = .ok true m') :
    loop m = loop m' := by
  rw [loop_eq]
  simp only [oneTurn, unlimited, turn]
  rfl

/-- A turn of the run loop finishes the run, in every slice and in the loop alike, or it goes on to
the next instruction. -/
theorem slice_cases (m : Machine) :
    (∃ finish m', m'.config = m.config ∧ (∀ fuel, slice (fuel + 1) m = (.finished finish, m')) ∧
      loop m = (.finished finish, m')) ∨
    ∃ m', m.exhausted? = none ∧ cycle m = .ok true m' := by
  rw [loop_eq, oneTurn]
  cases exhausted : m.exhausted? with
  | some budget =>
    refine .inl ⟨_, (m.exhaust budget).2, rfl, ?_, rfl⟩
    intro fuel
    exact slice_of_exhausted exhausted (fuel + 1)
  | none =>
    cases turn : cycle m with
    | error e after =>
      refine .inl ⟨.failed e m.ip, (after.fail e m.ip).2, (Keeps.of_error turn).1.config, ?_, rfl⟩
      intro fuel
      simp only [slice, exhausted, turn]
      rfl
    | ok more after =>
      cases more with
      | false =>
        refine .inl ⟨.completed, after.complete.2, (Keeps.of_ok turn).1.config, ?_, rfl⟩
        intro fuel
        simp only [slice, exhausted, turn]
        rfl
      | true => exact .inr ⟨after, rfl, rfl⟩

theorem slice_add (a b : Nat) (m : Machine) :
    slice (a + b) m = resume (slice b) (slice a m) := by
  induction a generalizing m with
  | zero =>
    cases exhausted : m.exhausted? with
    | some budget =>
      simp only [slice_of_exhausted exhausted]
      rfl
    | none =>
      rw [slice_zero exhausted, Nat.zero_add]
      rfl
  | succ a ih =>
    rw [Nat.succ_add]
    rcases slice_cases m with ⟨finish, after, _, stops, _⟩ | ⟨after, unlimited, turn⟩
    · rw [stops, stops]
      rfl
    · rw [slice_next unlimited turn, slice_next unlimited turn]
      exact ih after

theorem phase_of_slice (yielded : slice fuel m = (.yielded, m')) : m'.phase = m.phase := by
  induction fuel generalizing m with
  | zero =>
    cases exhausted : m.exhausted? with
    | some budget =>
      rw [slice_of_exhausted exhausted] at yielded
      cases yielded
    | none =>
      rw [slice_zero exhausted] at yielded
      cases yielded
      rfl
  | succ fuel ih =>
    rcases slice_cases m with ⟨finish, after, _, stops, _⟩ | ⟨after, unlimited, turn⟩
    · rw [stops] at yielded
      cases yielded
    · rw [slice_next unlimited turn] at yielded
      exact (ih yielded).trans (Keeps.of_ok turn).1.phase

theorem config_slice (fuel : Nat) (m : Machine) : (slice fuel m).2.config = m.config := by
  induction fuel generalizing m with
  | zero =>
    cases exhausted : m.exhausted? with
    | some budget =>
      rw [slice_of_exhausted exhausted]
      rfl
    | none => rw [slice_zero exhausted]
  | succ fuel ih =>
    rcases slice_cases m with ⟨finish, after, same, stops, _⟩ | ⟨after, unlimited, turn⟩
    · rw [stops]
      exact same
    · rw [slice_next unlimited turn]
      exact (ih after).trans (Keeps.of_ok turn).1.config

def started (m : Machine) : Machine := { m with phase := .running }.note (.started m.ip)

theorem runFor_ready (ready : m.phase = .ready) (fuel : Nat) :
    m.runFor fuel = slice fuel m.started := by
  simp only [runFor, ready]
  rfl

theorem runFor_running (running : m.phase = .running) (fuel : Nat) :
    m.runFor fuel = slice fuel m := by
  simp only [runFor, running]

theorem resume_slice (running : m.phase = .running) (a b : Nat) :
    resume (slice b) (slice a m) = resume (runFor b) (slice a m) := by
  cases result : slice a m with
  | mk outcome after =>
    cases outcome with
    | finished finish => rfl
    | yielded =>
      have still : after.phase = .running := (phase_of_slice result).trans running
      exact (runFor_running still b).symm

theorem runFor_add (a b : Nat) (m : Machine) :
    m.runFor (a + b) = resume (runFor b) (m.runFor a) := by
  cases phase : m.phase with
  | ready =>
    rw [runFor_ready phase, runFor_ready phase, slice_add]
    exact resume_slice rfl a b
  | running =>
    rw [runFor_running phase, runFor_running phase, slice_add]
    exact resume_slice phase a b
  | halted finish =>
    simp only [runFor, phase]
    rfl
  | destroyed =>
    simp only [runFor, phase]
    rfl

/-- What holds of a machine, is kept when it starts, and is kept by every step of a running machine
holds of every state that is reached: a slice is a start and steps. -/
theorem Reaches.stepwise {P : Machine → Prop} {m₀ : Machine} (reached : m₀.Reaches m)
    (initial : P m₀) (start : ∀ {m}, m₀.Reaches m → P m → P (m.runFor 0).2)
    (step : ∀ {m}, m₀.Reaches m → m.phase = .running → P m → P m.step.2) : P m := by
  have sliced : ∀ {m} fuel, m₀.Reaches m → m.phase = .running → P m → P (m.runFor fuel).2 := by
    intro m fuel visited running holds
    induction fuel generalizing m with
    | zero => exact start visited holds
    | succ fuel ih =>
      have after := step visited running holds
      rw [Nat.add_comm, runFor_add]
      cases result : m.runFor 1 with
      | mk outcome next =>
        have same : m.step = (outcome, next) := result
        rw [same] at after
        cases outcome with
        | finished finish => exact after
        | yielded =>
          have further : m₀.Reaches next := by
            have once := Reaches.step visited
            rwa [same] at once
          have still : next.phase = .running := by
            rw [runFor_running running] at result
            exact (phase_of_slice result).trans running
          exact ih further still after
  have both : m₀.Reaches m ∧ P m := by
    refine Reaches.of_slices (P := fun m => m₀.Reaches m ∧ P m) reached ⟨.refl, initial⟩ ?_
    rintro m fuel ⟨visited, holds⟩
    refine ⟨.runFor fuel visited, ?_⟩
    cases phase : m.phase with
    | ready =>
      have after := start visited holds
      rw [← Nat.zero_add fuel, runFor_add]
      cases result : m.runFor 0 with
      | mk outcome next =>
        rw [result] at after
        cases outcome with
        | finished finish => exact after
        | yielded =>
          have further : m₀.Reaches next := by
            have begun := Reaches.runFor 0 visited
            rwa [result] at begun
          have running : next.phase = .running := by
            rw [runFor_ready phase] at result
            exact phase_of_slice result
          exact sliced fuel further running after
    | running => exact sliced fuel visited phase holds
    | halted finish =>
      simp only [Machine.runFor, phase]
      exact holds
    | destroyed =>
      simp only [Machine.runFor, phase]
      exact holds
  exact both.2

theorem slice_zero_keeps (m : Machine) :
    (slice 0 m).2.toThread = m.toThread ∧ (slice 0 m).2.heap = m.heap := by
  cases exhausted : m.exhausted? with
  | some budget =>
    rw [slice_of_exhausted exhausted]
    exact ⟨rfl, rfl⟩
  | none =>
    rw [slice_zero exhausted]
    exact ⟨rfl, rfl⟩

theorem runFor_zero_keeps (m : Machine) :
    (m.runFor 0).2.toThread = m.toThread ∧ (m.runFor 0).2.heap = m.heap := by
  cases phase : m.phase with
  | ready =>
    rw [runFor_ready phase]
    exact slice_zero_keeps m.started
  | running =>
    rw [runFor_running phase]
    exact slice_zero_keeps m
  | halted finish =>
    simp only [runFor, phase]
    exact ⟨trivial, trivial⟩
  | destroyed =>
    simp only [runFor, phase]
    exact ⟨trivial, trivial⟩

theorem step_of_cycle (running : m.phase = .running) (unexhausted : m.exhausted? = none)
    {more : Bool} (done : cycle m = .ok more m') :
    m.step.2.toThread = m'.toThread ∧ m.step.2.heap = m'.heap := by
  rw [step, runFor_running running]
  cases more with
  | false =>
    simp only [slice, unexhausted, done]
    exact ⟨rfl, rfl⟩
  | true =>
    rw [slice_next unexhausted done]
    exact slice_zero_keeps m'

theorem step_cases (coherent : m.Coherent) (running : m.phase = .running) :
    (m.step.2.toThread = m.toThread ∧ m.step.2.heap = m.heap) ∨
    ∃ more m', m.exhausted? = none ∧ cycle m = .ok more m' ∧
      m.step.2.toThread = m'.toThread ∧ m.step.2.heap = m'.heap := by
  cases exhausted : m.exhausted? with
  | some budget =>
    rw [step, runFor_running running, slice_of_exhausted exhausted]
    exact .inl ⟨rfl, rfl⟩
  | none =>
    cases turn : cycle m with
    | ok more after => exact .inr ⟨more, after, rfl, rfl, step_of_cycle running exhausted turn⟩
    | error e after =>
      have same := cycle_eq_error coherent turn
      rw [step, runFor_running running]
      simp only [slice, exhausted, turn]
      rw [same]
      exact .inl ⟨rfl, rfl⟩

theorem runSlices_eq_runFor (fuel : Nat) (rest : List Nat) (m : Machine) :
    m.runSlices (fuel :: rest) = m.runFor (fuel + rest.sum) := by
  induction rest generalizing fuel m with
  | nil =>
    change resume (fun m => (.yielded, m)) (m.runFor fuel) = m.runFor fuel
    cases m.runFor fuel with
    | mk outcome after => cases outcome <;> rfl
  | cons next rest ih =>
    have together : runSlices (next :: rest) = runFor (next + rest.sum) :=
      funext fun after => ih next after
    rw [List.sum_cons, runFor_add, ← together]
    rfl

theorem loop_of_slice (finished : slice fuel m = (.finished finish, m')) :
    loop m = (.finished finish, m') := by
  induction fuel generalizing m with
  | zero =>
    cases exhausted : m.exhausted? with
    | some budget =>
      rw [slice_of_exhausted exhausted] at finished
      rw [loop_eq, oneTurn, exhausted]
      exact finished
    | none =>
      rw [slice_zero exhausted] at finished
      cases finished
  | succ fuel ih =>
    rcases slice_cases m with ⟨_, after, _, stops, ended⟩ | ⟨after, unlimited, turn⟩
    · rw [stops] at finished
      rw [ended, finished]
    · rw [slice_next unlimited turn] at finished
      rw [loop_next unlimited turn]
      exact ih finished

theorem run_of_runFor (finished : m.runFor fuel = (.finished finish, m')) :
    m.run = (.finished finish, m') := by
  cases phase : m.phase with
  | ready =>
    simp only [runFor, run, phase] at finished ⊢
    exact loop_of_slice finished
  | running =>
    simp only [runFor, run, phase] at finished ⊢
    exact loop_of_slice finished
  | halted _ =>
    simp only [runFor, run, phase] at finished ⊢
    exact finished
  | destroyed =>
    simp only [runFor, run, phase] at finished ⊢
    exact finished

theorem steps_eq_runFor (n : Nat) (states : Nat → Machine)
    (yielded : ∀ k < n, (states k).step = (.yielded, states (k + 1))) :
    (states n).step = (states 0).runFor (n + 1) := by
  induction n generalizing states with
  | zero => rfl
  | succ n ih =>
    have first : (states 0).runFor 1 = (.yielded, states 1) := yielded 0 (Nat.succ_pos n)
    have rest : (states (n + 1)).step = (states 1).runFor (n + 1) := by
      apply ih fun k => states (k + 1)
      intro k earlier
      exact yielded (k + 1) (Nat.succ_lt_succ earlier)
    calc (states (n + 1)).step = (states 1).runFor (n + 1) := rest
      _ = resume (runFor (n + 1)) ((states 0).runFor 1) := by rw [first]; rfl
      _ = (states 0).runFor (1 + (n + 1)) := (runFor_add 1 (n + 1) (states 0)).symm
      _ = (states 0).runFor (n + 1 + 1) := by rw [Nat.add_comm]

/-- A slice is two slices, the second of which is run if the first one yields. Slices that come to
an end come to the end of the run, and steps that all yield but the last are one slice. -/
theorem slices_make_up_the_run (m : Machine) :
    (∀ a b, m.runFor (a + b) = resume (runFor b) (m.runFor a)) ∧
    (∀ fuels finish m', m.runSlices fuels = (.finished finish, m') →
      m.RunsTo finish m' ∧ m.run = (.finished finish, m')) ∧
    (∀ n (states : Nat → Machine), states 0 = m →
      (∀ k < n, (states k).step = (.yielded, states (k + 1))) →
      (states n).step = m.runFor (n + 1)) := by
  refine ⟨fun a b => runFor_add a b m, ?_, ?_⟩
  · intro fuels finish m' finished
    cases fuels with
    | nil => cases finished
    | cons fuel rest =>
      rw [runSlices_eq_runFor] at finished
      exact ⟨⟨_, finished⟩, run_of_runFor finished⟩
  · rintro n states rfl yielded
    exact steps_eq_runFor n states yielded

theorem circling_slices_make_up_the_run :
    ∃ m, create (.empty none) (.encode [.jump 0])
        { Config.standard with instructionBudget := some 4 } = .ok m ∧
      m.runFor 4 = resume (runFor 1) (m.runFor 3) ∧
      (∃ m', m.runSlices [1, 0, 2, 5] = (.finished (.failed (.budgetExhausted 4) 0), m') ∧
        m.run = (.finished (.failed (.budgetExhausted 4) 0), m')) ∧
      ∃ states : Nat → Machine, states 0 = m ∧
        (∀ k < 3, (states k).step = (.yielded, states (k + 1))) ∧
        (states 3).step = m.runFor 4 := by
  have computed : ∃ m, create (.empty none) (.encode [.jump 0])
        { Config.standard with instructionBudget := some 4 } = .ok m ∧
      (m.runSlices [1, 0, 2, 5]).1 = .finished (.failed (.budgetExhausted 4) 0) ∧
      ∀ k < 3, ((fun m => m.step.2)^[k] m).step.1 = .yielded :=
    ⟨_, rfl, by decide +kernel, by decide +kernel⟩
  obtain ⟨m, made, ended, yields⟩ := computed
  have sliced : m.runSlices [1, 0, 2, 5] =
      (.finished (.failed (.budgetExhausted 4) 0), (m.runSlices [1, 0, 2, 5]).2) := by
    rw [← ended]
  have stepped : ∀ k < 3, ((fun m => m.step.2)^[k] m).step =
      (.yielded, (fun m => m.step.2)^[k + 1] m) := by
    intro k earlier
    rw [Function.iterate_succ_apply', ← yields k earlier]
  obtain ⟨whole, run, steps⟩ := slices_make_up_the_run m
  exact ⟨m, made, whole 3 1, ⟨_, sliced, (run _ _ _ sliced).2⟩,
    fun k => (fun m => m.step.2)^[k] m, rfl, stepped, steps 3 _ rfl stepped⟩

end StackMachine.Machine
