import StackMachine.Proofs.ObjectMap
import StackMachine.Proofs.Slices

namespace StackMachine

def Phase.stage : Phase → Nat
  | ready => 0
  | running => 1
  | halted _ => 2
  | destroyed => 3

theorem Phase.stage_le (phase : Phase) : phase.stage ≤ 3 := by
  cases phase <;> simp [stage]

inductive Call where
  | run
  | runFor (fuel : Nat)
  | step
  | destroy
deriving DecidableEq, Repr

/-- A call on the first machine comes back with the answer and leaves the second machine. A run
comes back if it finishes, and `destroy` has no answer. -/
inductive Call.Returns : Call → Machine → Option Outcome → Machine → Prop where
  | run {m m' : Machine} {finish : Finish} :
      m.RunsTo finish m' → Returns .run m (some (.finished finish)) m'
  | runFor (fuel : Nat) (m : Machine) :
      Returns (.runFor fuel) m (some (m.runFor fuel).1) (m.runFor fuel).2
  | step (m : Machine) : Returns .step m (some m.step.1) m.step.2
  | destroy (m : Machine) : Returns .destroy m none m.destroy

/-- How the program ended, if the answer says so. That the machine had halted or was destroyed
before the call is no end of the program. -/
def verdict? : Option Outcome → Option Finish
  | some (.finished (.failed .alreadyHalted _)) => none
  | some (.finished (.failed .destroyed _)) => none
  | some (.finished finish) => some finish
  | _ => none

theorem verdict?_eq_some {answer : Option Outcome} {finish : Finish}
    (final : verdict? answer = some finish) :
    answer = some (.finished finish) ∧
      ∀ ip, finish ≠ .failed .alreadyHalted ip ∧ finish ≠ .failed .destroyed ip := by
  unfold verdict? at final
  split at final
  · cases final
  · cases final
  · rename_i halted destroyed
    cases final
    exact ⟨rfl, fun ip => ⟨fun same => halted ip (by rw [same]),
      fun same => destroyed ip (by rw [same])⟩⟩
  · cases final

namespace Machine

variable {m m' : Machine}

def Live (m : Machine) : Prop := m.phase = .ready ∨ m.phase = .running

theorem Live.stage_le (live : m.Live) : m.phase.stage ≤ 1 := by
  rcases live with phase | phase <;> simp [phase, Phase.stage]

/-- What an execution call finds and leaves: it takes a live machine on, or refuses one that is not
live and does nothing to it. -/
inductive Executes (m : Machine) : Outcome → Machine → Prop where
  | yields {m' : Machine} : m.Live → m'.phase = .running → Executes m .yielded m'
  | finishes {m' : Machine} {finish : Finish} :
      m.Live → m'.phase = .halted finish → Executes m (.finished finish) m'
  | halted {finish : Finish} :
      m.phase = .halted finish → Executes m (.finished (.failed .alreadyHalted m.ip)) m
  | destroyed : m.phase = .destroyed → Executes m (.finished (.failed .destroyed m.ip)) m

theorem slice_phase (running : m.phase = .running) (fuel : Nat) :
    (slice fuel m).1 = .yielded ∧ (slice fuel m).2.phase = .running ∨
      ∃ finish, (slice fuel m).1 = .finished finish ∧ (slice fuel m).2.phase = .halted finish := by
  revert running
  apply slice_induction (P := fun m result => m.phase = .running →
    result.1 = .yielded ∧ result.2.phase = .running ∨
      ∃ finish, result.1 = .finished finish ∧ result.2.phase = .halted finish)
  · intro m budget _ _
    exact .inr ⟨_, rfl, rfl⟩
  · intro m running
    exact .inl ⟨rfl, running⟩
  · intro m m' _ _
    exact .inr ⟨_, rfl, rfl⟩
  · intro m m' e _ _
    exact .inr ⟨_, rfl, rfl⟩
  · intro m m' result turn later running
    exact later ((Keeps.of_ok turn).1.phase.trans running)

theorem runFor_executes (fuel : Nat) (m : Machine) :
    m.Executes (m.runFor fuel).1 (m.runFor fuel).2 := by
  have sliced : ∀ {m₁ : Machine}, m.Live → m₁.phase = .running →
      m.Executes (slice fuel m₁).1 (slice fuel m₁).2 := by
    intro m₁ live running
    rcases slice_phase running fuel with ⟨yielded, still⟩ | ⟨finish, finished, halted⟩
    · rw [yielded]
      exact .yields live still
    · rw [finished]
      exact .finishes live halted
  cases phase : m.phase with
  | ready =>
    rw [runFor_ready phase]
    exact sliced (.inl phase) rfl
  | running =>
    rw [runFor_running phase]
    exact sliced (.inr phase) phase
  | halted finish =>
    simp only [runFor, phase]
    exact .halted phase
  | destroyed =>
    simp only [runFor, phase]
    exact .destroyed phase

def Refuses (fault : Fault) (m : Machine) : Prop :=
  ∀ call answer m', call ≠ Call.destroy →
    (call.Returns m answer m' ↔ answer = some (.finished (.failed fault m.ip)) ∧ m' = m)

theorem Refuses.of_runFor {fault : Fault}
    (refused : ∀ fuel, m.runFor fuel = (.finished (.failed fault m.ip), m)) : m.Refuses fault := by
  intro call answer m' execution
  constructor
  · intro returned
    cases returned with
    | run finished =>
      obtain ⟨fuel, ran⟩ := finished
      rw [refused fuel] at ran
      cases ran
      exact ⟨rfl, rfl⟩
    | runFor fuel =>
      rw [refused fuel]
      exact ⟨rfl, rfl⟩
    | step =>
      rw [step, refused 1]
      exact ⟨rfl, rfl⟩
    | destroy => exact absurd rfl execution
  · rintro ⟨rfl, rfl⟩
    cases call with
    | run => exact .run ⟨0, refused 0⟩
    | runFor fuel =>
      have returned := Call.Returns.runFor fuel m'
      rwa [refused fuel] at returned
    | step =>
      have returned := Call.Returns.step m'
      rwa [step, refused 1] at returned
    | destroy => exact absurd rfl execution

theorem refuses_of_halted {finish : Finish} (halted : m.phase = .halted finish) :
    m.Refuses .alreadyHalted :=
  .of_runFor fun fuel => by simp only [runFor, halted]

theorem refuses_of_destroyed (gone : m.phase = .destroyed) : m.Refuses .destroyed :=
  .of_runFor fun fuel => by simp only [runFor, gone]

theorem destroy_of_destroyed (gone : m.phase = .destroyed) : m.destroy = m := if_pos gone

theorem destroy_phase (m : Machine) : m.destroy.phase = .destroyed := by
  unfold destroy
  split
  · assumption
  · rfl

theorem destroy_keeps (m : Machine) : m.destroy.counters = m.counters ∧ m.destroy.ip = m.ip := by
  unfold destroy
  split <;> exact ⟨rfl, rfl⟩

structure Emptied (m : Machine) : Prop where
  values : m.stack.values = #[]
  floor : m.stack.floor = 0
  frames : m.calls.frames = #[]
  live : m.heap.live = 0
  bytesInUse : m.heap.bytesInUse = 0
  handles : ∀ h, m.heap.isLive h = false

theorem destroy_emptied (present : m.phase ≠ .destroyed) : m.destroy.Emptied := by
  have gone : ∀ h, m.heap.clear.isLive h = false := by
    intro h
    rw [Heap.isLive, Heap.clear_get?]
    rfl
  rw [destroy, if_neg present]
  exact ⟨rfl, rfl, rfl, rfl, rfl, gone⟩

end Machine

namespace Call.Returns

open Machine

variable {call : Call} {m m' : Machine} {answer : Option Outcome} {finish : Finish}

theorem cases_of (returned : call.Returns m answer m') :
    call = .destroy ∧ answer = none ∧ m' = m.destroy ∨
      call ≠ .destroy ∧ ∃ outcome, answer = some outcome ∧ m.Executes outcome m' := by
  cases returned with
  | run finished =>
    obtain ⟨fuel, ran⟩ := finished
    have executes := runFor_executes fuel m
    rw [ran] at executes
    exact .inr ⟨nofun, _, rfl, executes⟩
  | runFor fuel => exact .inr ⟨nofun, _, rfl, runFor_executes fuel m⟩
  | step => exact .inr ⟨nofun, _, rfl, runFor_executes 1 m⟩
  | destroy => exact .inl ⟨rfl, rfl, rfl⟩

theorem stage_le (returned : call.Returns m answer m') : m.phase.stage ≤ m'.phase.stage := by
  rcases returned.cases_of with ⟨_, _, rfl⟩ | ⟨_, outcome, _, executes⟩
  · rw [destroy_phase]
    exact m.phase.stage_le
  · cases executes with
    | yields live running =>
      rw [running]
      exact live.stage_le
    | finishes live halted =>
      rw [halted]
      exact Nat.le_succ_of_le live.stage_le
    | halted _ => exact Nat.le_refl _
    | destroyed _ => exact Nat.le_refl _

theorem destroy_of_destroyed (returned : call.Returns m answer m')
    (present : m.phase ≠ .destroyed) (gone : m'.phase = .destroyed) : call = .destroy := by
  rcases returned.cases_of with ⟨same, _⟩ | ⟨_, outcome, _, executes⟩
  · exact same
  · cases executes with
    | yields _ running =>
      rw [running] at gone
      cases gone
    | finishes _ halted =>
      rw [halted] at gone
      cases gone
    | halted _ => exact absurd gone present
    | destroyed _ => exact absurd gone present

theorem halts_of_verdict (returned : call.Returns m answer m')
    (final : verdict? answer = some finish) : m.Live ∧ m'.phase = .halted finish := by
  obtain ⟨answered, other⟩ := verdict?_eq_some final
  rcases returned.cases_of with ⟨_, none, _⟩ | ⟨_, outcome, some, executes⟩
  · rw [none] at answered
    cases answered
  · rw [some] at answered
    cases answered
    cases executes with
    | finishes live halted => exact ⟨live, halted⟩
    | halted _ => exact absurd rfl (other m.ip).1
    | destroyed _ => exact absurd rfl (other m.ip).2

theorem eq_of_halted (returned : call.Returns m answer m') (execution : call ≠ .destroy)
    (halted : m.phase = .halted finish) : m' = m :=
  ((refuses_of_halted halted call answer m' execution).mp returned).2

theorem eq_of_destroyed (returned : call.Returns m answer m') (gone : m.phase = .destroyed) :
    m' = m := by
  rcases returned.cases_of with ⟨_, _, rfl⟩ | ⟨execution, _⟩
  · exact Machine.destroy_of_destroyed gone
  · exact ((refuses_of_destroyed gone call answer m' execution).mp returned).2

theorem emptied (returned : call.Returns m answer m')
    (before : m.phase = .destroyed → m.Emptied) (gone : m'.phase = .destroyed) : m'.Emptied := by
  by_cases present : m.phase = .destroyed
  · rw [returned.eq_of_destroyed present]
    exact before present
  · have last := returned.destroy_of_destroyed present gone
    subst last
    cases returned with
    | destroy => exact destroy_emptied present

end Call.Returns

def Served (n : Nat) (calls : Nat → Call) (answers : Nat → Option Outcome)
    (states : Nat → Machine) : Prop :=
  ∀ k < n, (calls k).Returns (states k) (answers k) (states (k + 1))

namespace Served

variable {n i j k : Nat} {calls : Nat → Call} {answers : Nat → Option Outcome}
  {states : Nat → Machine} {finish : Finish}

theorem stage_le (served : Served n calls answers states) (order : i ≤ j) (bound : j ≤ n) :
    (states i).phase.stage ≤ (states j).phase.stage := by
  induction j, order using Nat.le_induction with
  | base => exact Nat.le_refl _
  | succ j _ ih =>
    have before := ih (by omega)
    have last := (served j bound).stage_le
    omega

theorem verdict_unique (served : Served n calls answers states) {first second : Finish}
    (bound : i < n) (bound' : j < n) (final : verdict? (answers i) = some first)
    (again : verdict? (answers j) = some second) : i = j := by
  have later : ∀ {i j first second}, i < n → j < n → verdict? (answers i) = some first →
      verdict? (answers j) = some second → ¬ i < j := by
    intro i j first second bound bound' final again before
    have stage := served.stage_le before (Nat.le_of_lt bound')
    have live := ((served j bound').halts_of_verdict again).1.stage_le
    rw [((served i bound).halts_of_verdict final).2] at stage
    exact absurd (stage.trans live) (Nat.not_succ_le_self 1)
  have notBefore := later bound bound' final again
  have notAfter := later bound' bound again final
  omega

theorem halted_until_destroy (served : Served n calls answers states)
    (final : verdict? (answers i) = some finish) (after : i < j) (bound : j ≤ n)
    (kept : ∀ k, i < k → k < j → calls k ≠ .destroy) : (states j).phase = .halted finish := by
  induction j, after using Nat.le_induction with
  | base => exact ((served i bound).halts_of_verdict final).2
  | succ j after ih =>
    have halted := ih (by omega) fun k later earlier => kept k later (by omega)
    have execution := kept j after (Nat.lt_succ_self j)
    rw [(served j bound).eq_of_halted execution halted]
    exact halted

theorem emptied (served : Served n calls answers states)
    (present : (states 0).phase ≠ .destroyed) (bound : k ≤ n)
    (gone : (states k).phase = .destroyed) : (states k).Emptied := by
  induction k with
  | zero => exact absurd gone present
  | succ k ih => exact (served k bound).emptied (fun before => ih (by omega) before) gone

theorem phase_after_destroy (served : Served n calls answers states) (bound : k < n)
    (ended : calls k = .destroy) :
    (states (k + 1)).phase = .destroyed ∧ (states (k + 1)).counters = (states k).counters ∧
      (states (k + 1)).ip = (states k).ip := by
  have returned := served k bound
  rw [ended] at returned
  rcases returned.cases_of with ⟨_, _, same⟩ | ⟨execution, _⟩
  · rw [same]
    exact ⟨Machine.destroy_phase _, Machine.destroy_keeps _⟩
  · exact absurd rfl execution

theorem eq_after_destroy (served : Served n calls answers states)
    (gone : (states i).phase = .destroyed) (after : i ≤ j) (bound : j ≤ n) :
    states j = states i := by
  induction j, after using Nat.le_induction with
  | base => rfl
  | succ j _ ih =>
    have same := ih (by omega)
    rw [(served j bound).eq_of_destroyed (by rw [same]; exact gone)]
    exact same

end Served

namespace Machine

/-- Whatever calls a host makes, the phase of its machine never goes back, and only `destroy`
destroys it. One call at most says how the program ended; from then on to its destruction the
machine is halted with this end, and refuses to execute. A destroyed machine has nothing left but
its counters and its instruction pointer, and nothing changes it any more. -/
theorem lifecycle_goes_forward {journal : Journal} {code : Code} {stack : OperandStack}
    {heap : Heap} {config : Config} {n : Nat} {calls : Nat → Call}
    {answers : Nat → Option Outcome} {states : Nat → Machine}
    (made : ofParts journal code stack heap config = .ok (states 0))
    (served : Served n calls answers states) :
    (∀ i j, i ≤ j → j ≤ n → (states i).phase.stage ≤ (states j).phase.stage) ∧
    (∀ k < n, (states k).phase ≠ .destroyed → (states (k + 1)).phase = .destroyed →
      calls k = .destroy) ∧
    (∀ i j first second, i < n → j < n → verdict? (answers i) = some first →
      verdict? (answers j) = some second → i = j) ∧
    (∀ i j finish, verdict? (answers i) = some finish → i < j → j ≤ n →
      (∀ k, i < k → k < j → calls k ≠ .destroy) → (states j).phase = .halted finish) ∧
    (∀ k ≤ n, ∀ finish, (states k).phase = .halted finish →
      (states k).Refuses .alreadyHalted) ∧
    (∀ k j, calls k = .destroy → k < j → j ≤ n →
      (states j).phase = .destroyed ∧ (states j).Emptied ∧
      (states j).counters = (states k).counters ∧ (states j).ip = (states k).ip ∧
      states j = states (k + 1) ∧ (states j).Refuses .destroyed ∧
      (states j).destroy = states j) := by
  obtain ⟨_, _, _, fresh⟩ := ofParts_eq_ok made
  have present : (states 0).phase ≠ .destroyed := by
    rw [fresh]
    nofun
  refine ⟨fun i j => served.stage_le, ?_, ?_, ?_, ?_, ?_⟩
  · intro k bound before after
    exact (served k bound).destroy_of_destroyed before after
  · intro i j first second bound bound'
    exact served.verdict_unique bound bound'
  · intro i j finish final after bound kept
    exact served.halted_until_destroy final after bound kept
  · intro k _ finish halted
    exact refuses_of_halted halted
  · intro k j ended after bound
    obtain ⟨gone, counters, ip⟩ := served.phase_after_destroy (by omega) ended
    have same := served.eq_after_destroy gone after bound
    have emptied := served.emptied present (by omega) gone
    rw [same]
    exact ⟨gone, emptied, counters, ip, rfl, refuses_of_destroyed gone, destroy_of_destroyed gone⟩

def insistentCalls : Nat → Call
  | 0 => .step
  | 1 => .run
  | 2 => .run
  | 3 => .destroy
  | 4 => .runFor 3
  | _ => .destroy

def insistentAnswers : Nat → Option Outcome
  | 0 => some .yielded
  | 1 => some (.finished .completed)
  | 2 => some (.finished (.failed .alreadyHalted 6))
  | 4 => some (.finished (.failed .destroyed 6))
  | _ => none

def insistentStates (m : Machine) : Nat → Machine
  | 0 => m
  | 1 => m.step.2
  | 2 | 3 => (m.step.2.runFor 5).2
  | _ => (m.step.2.runFor 5).2.destroy

theorem insistent_host_sees_forward_lifecycle :
    ∃ m, create (.empty none) (.encode [.new .record 1, .halt]) .standard = .ok m ∧
      Served 6 insistentCalls insistentAnswers (insistentStates m) ∧
      (insistentStates m 3).phase = .halted .completed ∧
      (insistentStates m 3).Refuses .alreadyHalted ∧
      (insistentStates m 6).Emptied ∧ (insistentStates m 6).Refuses .destroyed ∧
      (insistentStates m 6).counters.instructions = 2 := by
  have computed : ∃ m, create (.empty none) (.encode [.new .record 1, .halt]) .standard = .ok m ∧
      m.step.1 = .yielded ∧ (m.step.2.runFor 5).1 = .finished .completed ∧
      (m.step.2.runFor 5).2.ip = 6 ∧ (m.step.2.runFor 5).2.counters.instructions = 2 ∧
      (m.step.2.runFor 5).2.phase = .halted .completed :=
    ⟨_, rfl, by decide +kernel, by decide +kernel, by decide +kernel, by decide +kernel,
      by decide +kernel⟩
  obtain ⟨m, made, yielded, completed, ip, instructions, halted⟩ := computed
  have served : Served 6 insistentCalls insistentAnswers (insistentStates m) := by
    intro k bound
    have gone := destroy_phase (m.step.2.runFor 5).2
    have kept := destroy_keeps (m.step.2.runFor 5).2
    match k, bound with
    | 0, _ =>
      have returned := Call.Returns.step m
      rwa [yielded] at returned
    | 1, _ => exact .run ⟨5, Prod.ext completed rfl⟩
    | 2, _ => exact (refuses_of_halted halted .run _ _ nofun).mpr ⟨by rw [ip]; rfl, rfl⟩
    | 3, _ => exact .destroy _
    | 4, _ =>
      refine (refuses_of_destroyed gone (.runFor 3) _ _ nofun).mpr ⟨?_, rfl⟩
      rw [kept.2, ip]
      rfl
    | 5, _ =>
      have returned := Call.Returns.destroy (m.step.2.runFor 5).2.destroy
      rwa [destroy_of_destroyed gone] at returned
  have begun : create (.empty none) (.encode [.new .record 1, .halt]) .standard =
      .ok (insistentStates m 0) := made
  obtain ⟨_, _, _, ended, refused, after⟩ := lifecycle_goes_forward begun served
  have stopped := ended 1 3 .completed rfl (by omega) (by omega) fun k later earlier => by
    have second : k = 2 := by omega
    rw [second]
    nofun
  obtain ⟨_, emptied, counters, _, _, refuses, _⟩ := after 3 6 rfl (by omega) (by omega)
  refine ⟨m, made, served, stopped, refused 3 (by omega) _ stopped, emptied, refuses, ?_⟩
  rw [counters]
  exact instructions

end Machine

end StackMachine
