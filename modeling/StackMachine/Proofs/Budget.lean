import StackMachine.Proofs.Slices

namespace StackMachine.Machine

variable {m m' : Machine} {budget : Nat}

def withBudget (limit : Option Nat) (m : Machine) : Machine :=
  { m with config := { m.config with instructionBudget := limit } }

theorem withBudget_eq_of_config (config : m'.config = m.config) (limit : Option Nat) :
    m'.withBudget limit = { m' with config := (m.withBudget limit).config } := by
  unfold withBudget
  rw [config]

theorem Local.withBudget {α : Type} {action : Action Machine α} (isLocal : Local action)
    (limit : Option Nat) (m : Machine) :
    action (m.withBudget limit) = Action.mapState (Machine.withBudget limit) (action m) := by
  have moved := isLocal.under { m.config with instructionBudget := limit } m.ip m.phase m.counters m
  have kept := isLocal.kept m
  have fits : ∀ {m' : Machine}, m' = m'.under m.config m.ip m.phase m.counters →
      m'.under { m.config with instructionBudget := limit } m.ip m.phase m.counters =
        m'.withBudget limit := by
    intro m' same
    rw [same]
    rfl
  refine Eq.trans moved ?_
  cases result : action m with
  | ok a m' =>
    rw [result] at kept
    exact congrArg (EStateM.Result.ok a) (fits kept)
  | error e m' =>
    rw [result] at kept
    exact congrArg (EStateM.Result.error e) (fits kept)

theorem fetch_withBudget (limit : Option Nat) (m : Machine) :
    fetch (m.withBudget limit) = Action.mapState (withBudget limit) (fetch m) := by
  cases decoded : m.code.decode m.ip with
  | error e =>
    have same : (m.withBudget limit).code.decode (m.withBudget limit).ip = .error e := decoded
    rw [fetch_of_error decoded, fetch_of_error same]
    rfl
  | ok pair =>
    have same : (m.withBudget limit).code.decode (m.withBudget limit).ip = .ok pair := decoded
    rw [fetch_of_decode decoded, fetch_of_decode same]
    rfl

theorem cycle_withBudget (limit : Option Nat) (m : Machine) :
    cycle (m.withBudget limit) = Action.mapState (withBudget limit) (cycle m) := by
  apply Action.mapState_bind (fetch_withBudget limit m)
  intro pair fetched _
  apply Action.mapState_bind ((exec_local pair.1 pair.2).withBudget limit fetched)
  intro control after _
  cases control <;> rfl

theorem exhausted?_of_unlimited (unlimited : m.config.instructionBudget = none) :
    m.exhausted? = none := by
  rw [exhausted?, unlimited]
  rfl

theorem exhausted?_of_budget (limit : m.config.instructionBudget = some budget) :
    m.exhausted? = if budget ≤ m.counters.instructions then some budget else none := by
  rw [exhausted?, limit]
  by_cases used : budget ≤ m.counters.instructions
  · rw [if_pos used]
    exact Option.filter_some_pos (decide_eq_true used)
  · rw [if_neg used]
    exact Option.filter_some_neg (decide_eq_false used)

theorem exhaust_eq (budget : Nat) (m : Machine) :
    ∃ journal, m.exhaust budget = (.finished (.failed (.budgetExhausted budget) m.ip),
      { m with
        phase := .halted (.failed (.budgetExhausted budget) m.ip), journal := journal }) :=
  ⟨_, rfl⟩

/-- What a machine with a budget makes of a slice of the machine without one. -/
def limited (budget : Nat) : Outcome × Machine → Outcome × Machine
  | (.yielded, m) => (m.withBudget (some budget)).exhaust budget
  | (.finished finish, m) => (.finished finish, m.withBudget (some budget))

theorem slice_withBudget {fuel : Nat} (unlimited : m.config.instructionBudget = none)
    (count : m.counters.instructions + fuel = budget) :
    slice fuel (m.withBudget (some budget)) = limited budget (slice fuel m) := by
  induction fuel generalizing m with
  | zero =>
    have used : budget ≤ (m.withBudget (some budget)).counters.instructions := by
      change budget ≤ m.counters.instructions
      omega
    have exhausted := exhausted?_of_budget (m := m.withBudget (some budget)) rfl
    rw [if_pos used] at exhausted
    rw [slice_of_exhausted exhausted, slice_zero (exhausted?_of_unlimited unlimited)]
    rfl
  | succ fuel ih =>
    have unused : ¬ budget ≤ (m.withBudget (some budget)).counters.instructions := by
      change ¬ budget ≤ m.counters.instructions
      omega
    have free := exhausted?_of_unlimited unlimited
    have exhausted := exhausted?_of_budget (m := m.withBudget (some budget)) rfl
    rw [if_neg unused] at exhausted
    have same := cycle_withBudget (some budget) m
    cases turn : cycle m with
    | error e after =>
      rw [turn] at same
      simp only [slice, free, exhausted, turn, same, Action.mapState]
      rfl
    | ok more after =>
      rw [turn] at same
      cases more with
      | false =>
        simp only [slice, free, exhausted, turn, same, Action.mapState]
        rfl
      | true =>
        obtain ⟨keeps, counted⟩ := Keeps.of_ok turn
        have still : after.config.instructionBudget = none := by rw [keeps.config, unlimited]
        rw [slice_next exhausted same, slice_next free turn]
        exact ih still (by omega)

theorem runFor_withBudget (ready : m.phase = .ready)
    (unlimited : m.config.instructionBudget = none) (fresh : m.counters.instructions = 0) :
    (m.withBudget (some budget)).runFor budget = limited budget (m.runFor budget) := by
  have same : (m.withBudget (some budget)).phase = .ready := ready
  have count : m.started.counters.instructions + budget = budget := by
    change m.counters.instructions + budget = budget
    omega
  rw [runFor_ready ready, runFor_ready same]
  exact slice_withBudget (m := m.started) unlimited count

theorem create_withBudget {journal : Journal} {code : Code} {config : Config}
    (made : create journal code { config with instructionBudget := none } = .ok m)
    (limit : Option Nat) :
    create journal code { config with instructionBudget := limit } = .ok (m.withBudget limit) := by
  unfold create ofParts at made ⊢
  dsimp only at made ⊢
  split at made
  · cases made
  · rename_i checked
    split at made
    · cases made
    · rename_i nonempty
      cases made
      split
      · rename_i e failed
        -- The check does not look at the budget, so it says the same of both configurations.
        have clash : (.error e : Except Fault Unit) = .ok () := failed.symm.trans checked
        cases clash
      · rw [if_neg nonempty]
        rfl

theorem dispatches_create {journal : Journal} {code : Code} {config : Config}
    (made : create journal code config = .ok m) : m.journal.dispatches = journal.dispatches := by
  unfold create ofParts at made
  dsimp only at made
  split at made
  · cases made
  · split at made
    · cases made
    · cases made
      exact Journal.dispatches_add_of_other rfl

/-- What holds of a machine with a budget that began with `start` reports of instructions in its
journal. -/
structure Within (budget start : Nat) (m : Machine) : Prop where
  limit : m.config.instructionBudget = some budget
  completed : m.counters.instructions ≤ budget
  dispatched : m.journal.dispatches ≤ start + budget
  running : m.phase = .ready ∨ m.phase = .running →
    m.journal.dispatches ≤ start + m.counters.instructions

namespace Within

variable {start fuel : Nat}

theorem halted (within : m.Within budget start) {e : Event} (other : e.isDispatch = false)
    (finish : Finish) (ip : Nat) :
    ({ m with ip := ip, phase := .halted finish }.note e).Within budget start := by
  have reported : (m.journal.add e).dispatches = m.journal.dispatches :=
    Journal.dispatches_add_of_other other
  refine ⟨within.limit, within.completed, ?_, ?_⟩
  · exact reported.trans_le within.dispatched
  · rintro (phase | phase) <;> cases phase

theorem exhaust (within : m.Within budget start) : (m.exhaust budget).2.Within budget start := by
  have noted : (m.note (.budgetExhausted budget m.ip)).Within budget start := by
    have reported : (m.journal.add (.budgetExhausted budget m.ip)).dispatches =
        m.journal.dispatches := Journal.dispatches_add_of_other rfl
    exact ⟨within.limit, within.completed, reported.trans_le within.dispatched,
      fun live => reported.trans_le (within.running live)⟩
  exact noted.halted rfl _ _

theorem completed_cycle (within : m.Within budget start) (running : m.phase = .running)
    (unused : m.counters.instructions < budget) {more : Bool} (turn : cycle m = .ok more m') :
    m'.Within budget start := by
  obtain ⟨keeps, counted⟩ := Keeps.of_ok turn
  have reported := keeps.dispatches
  have before := within.running (.inr running)
  refine ⟨?_, by omega, by omega, fun _ => by omega⟩
  rw [keeps.config, within.limit]

theorem failed_cycle (within : m.Within budget start) (running : m.phase = .running)
    (unused : m.counters.instructions < budget) {e : Fault} (turn : cycle m = .error e m') :
    (m'.fail e m.ip).2.Within budget start := by
  obtain ⟨keeps, counters⟩ := Keeps.of_error turn
  have reported := keeps.dispatches
  have before := within.running (.inr running)
  have other : (m'.journal.add (.failed e m.ip m'.counters.instructions)).dispatches =
      m'.journal.dispatches := Journal.dispatches_add_of_other rfl
  refine ⟨keeps.config ▸ within.limit, ?_, ?_, ?_⟩
  · change m'.counters.instructions ≤ budget
    rw [counters]
    omega
  · change (m'.journal.add (.failed e m.ip m'.counters.instructions)).dispatches ≤ start + budget
    omega
  · rintro (phase | phase) <;> cases phase

theorem slice (within : m.Within budget start) (running : m.phase = .running) :
    (Machine.slice fuel m).2.Within budget start := by
  have exhausted := exhausted?_of_budget within.limit
  induction fuel generalizing m with
  | zero =>
    split at exhausted
    · rw [slice_of_exhausted exhausted]
      exact within.exhaust
    · rw [slice_zero exhausted]
      exact within
  | succ fuel ih =>
    split at exhausted
    · rw [slice_of_exhausted exhausted]
      exact within.exhaust
    · have unused : m.counters.instructions < budget := by omega
      cases turn : cycle m with
      | error e after =>
        simp only [Machine.slice, exhausted, turn]
        exact within.failed_cycle running unused turn
      | ok more after =>
        have next := within.completed_cycle running unused turn
        cases more with
        | false =>
          simp only [Machine.slice, exhausted, turn]
          exact next.halted rfl _ after.ip
        | true =>
          rw [slice_next exhausted turn]
          exact ih next ((Keeps.of_ok turn).1.phase.trans running) (exhausted?_of_budget next.limit)

theorem runFor (within : m.Within budget start) (fuel : Nat) :
    (m.runFor fuel).2.Within budget start := by
  cases phase : m.phase with
  | ready =>
    rw [runFor_ready phase]
    have reported : m.started.journal.dispatches = m.journal.dispatches :=
      Journal.dispatches_add_of_other rfl
    have started : m.started.Within budget start :=
      ⟨within.limit, within.completed, reported.trans_le within.dispatched,
        fun _ => reported.trans_le (within.running (.inl phase))⟩
    exact started.slice rfl
  | running =>
    rw [runFor_running phase]
    exact within.slice phase
  | halted finish =>
    simp only [Machine.runFor, phase]
    exact within
  | destroyed =>
    simp only [Machine.runFor, phase]
    exact within

end Within

/-- The run of a machine with a budget always ends. It ends as a slice of as much fuel does without
the budget, or at the budget if that slice yields. No more instructions than the budget allows are
completed, and no more are begun. -/
theorem budget_is_exact {journal : Journal} {code : Code} {config : Config} (budget : Nat)
    (made : create journal code { config with instructionBudget := none } = .ok m) :
    ∃ bounded, create journal code { config with instructionBudget := some budget } = .ok bounded ∧
      (∃ finish last, bounded.RunsTo finish last ∧ bounded.run = (.finished finish, last) ∧
        match m.runFor budget with
        | (.yielded, m') => finish = .failed (.budgetExhausted budget) m'.ip ∧
            ∃ journal, last =
              { m' with config := bounded.config, phase := .halted finish, journal := journal }
        | (.finished result, m') => finish = result ∧ last = { m' with config := bounded.config }) ∧
      ∀ reached, bounded.Reaches reached →
        reached.counters.instructions ≤ budget ∧
          reached.journal.dispatches ≤ journal.dispatches + budget := by
  obtain ⟨_, _, _, fresh⟩ := ofParts_eq_ok made
  have ready : m.phase = .ready := by rw [fresh]
  have unlimited : m.config.instructionBudget = none := by rw [fresh]
  have zero : m.counters.instructions = 0 := by rw [fresh]; rfl
  refine ⟨m.withBudget (some budget), create_withBudget made (some budget), ?_, ?_⟩
  · have sliced : (m.withBudget (some budget)).runFor budget = limited budget (m.runFor budget) :=
      runFor_withBudget ready unlimited zero
    have config : (m.runFor budget).2.config = m.config := by
      rw [runFor_ready ready]
      exact config_slice budget m.started
    cases result : m.runFor budget with
    | mk outcome after =>
      rw [result] at sliced config
      have same := withBudget_eq_of_config config (some budget)
      cases outcome with
      | yielded =>
        obtain ⟨journal, exhausted⟩ := exhaust_eq budget (after.withBudget (some budget))
        have ends := sliced.trans exhausted
        refine ⟨_, _, ⟨budget, ends⟩, run_of_runFor ends, rfl, journal, ?_⟩
        rw [same]
      | finished finish => exact ⟨finish, _, ⟨budget, sliced⟩, run_of_runFor sliced, rfl, same⟩
  · intro reached reaches
    have initial : (m.withBudget (some budget)).Within budget journal.dispatches := by
      have start := dispatches_create made
      refine ⟨rfl, ?_, ?_, fun _ => ?_⟩
      · exact zero.trans_le (Nat.zero_le budget)
      · exact start.trans_le (Nat.le_add_right _ _)
      · exact start.trans_le (Nat.le_add_right _ _)
    have within := reaches.of_slices initial fun fuel within => within.runFor fuel
    exact ⟨within.completed, within.dispatched⟩

theorem budget_of_two_instructions_is_exact :
    ∃ done stopped,
      create (.empty (some .trace)) (.encode [.pushNull, .halt])
        { Config.standard with instructionBudget := some 2 } = .ok done ∧
      create (.empty (some .trace)) (.encode [.pushNull, .halt])
        { Config.standard with instructionBudget := some 1 } = .ok stopped ∧
      (∃ last, done.run = (.finished .completed, last)) ∧
      (∃ last, stopped.run = (.finished (.failed (.budgetExhausted 1) 1), last)) ∧
      ∀ reached, stopped.Reaches reached → reached.journal.dispatches ≤ 1 := by
  have computed : ∃ m, create (.empty (some .trace)) (.encode [.pushNull, .halt])
        { Config.standard with instructionBudget := none } = .ok m ∧
      (m.runFor 2).1 = .finished .completed ∧ (m.runFor 1).1 = .yielded ∧ (m.runFor 1).2.ip = 1 :=
    ⟨_, rfl, by decide +kernel, by decide +kernel, by decide +kernel⟩
  obtain ⟨m, made, ended, yielded, ip⟩ := computed
  obtain ⟨done, madeDone, ⟨finish, last, _, ran, whole⟩, _⟩ := budget_is_exact 2 made
  obtain ⟨stopped, madeStopped, ⟨finish', last', _, ran', part⟩, bound⟩ := budget_is_exact 1 made
  cases first : m.runFor 2 with
  | mk outcome after =>
    cases second : m.runFor 1 with
    | mk outcome' after' =>
      rw [first] at ended whole
      rw [second] at yielded part ip
      cases ended
      cases yielded
      obtain ⟨rfl, _⟩ := whole
      obtain ⟨rfl, _⟩ := part
      refine ⟨done, stopped, madeDone, madeStopped, ⟨last, ran⟩, ⟨last', ?_⟩, ?_⟩
      · rw [ran', ← ip]
      · intro reached reaches
        exact (bound reached reaches).2

end StackMachine.Machine
