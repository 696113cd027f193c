import StackMachine.Host.Session
import StackMachine.Proofs.Causes
import StackMachine.Proofs.Lifecycle

namespace StackMachine

inductive Request where
  | run
  | clearError
  | inspect
deriving DecidableEq, Repr

/-- A request to the first session comes back with the result, if it has one, and leaves the second
session. A run comes back if it finishes. -/
inductive Request.Returns : Request → Session → Option HostResult → Session → Prop where
  | run {s s' : Session} {result : HostResult} (fuel : Nat) :
      Host.run fuel (some s) = (some result, some s') → Returns .run s (some result) s'
  | clearError {s s' : Session} :
      Host.clearError (some s) = some s' → Returns .clearError s none s'
  | inspect (s : Session) : Returns .inspect s none s

/-- The host makes `n` requests one after the other. Request `k` finds session `k`. -/
def Hosted (n : Nat) (requests : Nat → Request) (answers : Nat → Option HostResult)
    (sessions : Nat → Session) : Prop :=
  ∀ k < n, (requests k).Returns (sessions k) (answers k) (sessions (k + 1))

/-- The numbers that hosts are told to expect. -/
def Fault.published : Fault → Nat
  | stackOverflow _ => 1
  | stackUnderflow => 2
  | frameUnderflow => 3
  | callDepthExceeded _ => 4
  | invalidOpcode _ => 5
  | truncatedOperand _ _ => 6
  | offsetOutOfRange _ _ => 7
  | invalidHandle _ => 8
  | fieldOutOfRange _ _ => 9
  | typeMismatch _ _ => 10
  | divisionByZero => 11
  | outOfMemory _ _ => 12
  | invalidLocal _ _ => 13
  | alreadyHalted => 14
  | destroyed => 15
  | budgetExhausted _ => 16
  | emptyCode => 17
  | invalidConfig _ => 18

def Finish.published : Finish → Nat
  | .completed => 0
  | .failed fault _ => fault.published

namespace FaultKind

theorem code_result (kind : FaultKind) : kind.result.code = kind.ctorIdx + 1 := by
  cases kind <;> rfl

theorem code_result_inj {a b : FaultKind} : a.result.code = b.result.code ↔ a = b := by
  constructor
  · intro same
    rw [code_result, code_result, Nat.add_right_cancel_iff] at same
    rw [← ofNat_ctorIdx a, same, ofNat_ctorIdx]
  · rintro rfl
    rfl

theorem name_result (kind : FaultKind) : kind.result.name = "Error" ++ kind.name := by
  cases kind <;> rfl

theorem isErr_result (kind : FaultKind) : kind.result.isErr = true := by
  cases kind <;> rfl

end FaultKind

theorem HostResult.code_eq_zero {result : HostResult} :
    result.code = 0 ↔ result.isErr = false := by
  cases result <;> decide

theorem Finish.code_result (finish : Finish) : finish.result.code = finish.published := by
  cases finish with
  | completed => rfl
  | failed fault ip => cases fault <;> rfl

theorem Host.string?_eq_some {text : String} (readable : '\x00' ∉ text.toList) :
    Host.string? text = some text := if_neg readable

namespace Machine

variable {m m' m₀ : Machine} {fuel : Nat} {finish : Finish}

theorem Reaches.not_destroyed (reached : m₀.Reaches m) (present : m₀.phase ≠ .destroyed) :
    m.phase ≠ .destroyed := by
  refine Reaches.of_slices (P := fun m => m.phase ≠ .destroyed) reached present ?_
  intro m fuel before
  have executes := runFor_executes fuel m
  generalize m.runFor fuel = result at executes ⊢
  obtain ⟨outcome, after⟩ := result
  dsimp only at executes ⊢
  cases executes with
  | yields _ running =>
    rw [running]
    nofun
  | finishes _ halted =>
    rw [halted]
    nofun
  | halted _ => exact before
  | destroyed _ => exact before

theorem halted_of_runFor (present : m.phase ≠ .destroyed)
    (finished : m.runFor fuel = (.finished finish, m')) : ∃ last, m'.phase = .halted last := by
  have executes := runFor_executes fuel m
  rw [finished] at executes
  dsimp only at executes
  cases executes with
  | finishes _ halted => exact ⟨finish, halted⟩
  | halted halted => exact ⟨_, halted⟩
  | destroyed gone => exact absurd gone present

end Machine

namespace Session

variable {s s' : Session} {result : HostResult} {fuel : Nat} {code : Code} {config : Config}
  {m₀ : Machine} {finish : Finish}

theorem create?_eq_some (created : create? (some code) config = some s) :
    ∃ m, Machine.create (.empty none) code config = .ok m ∧ s = ⟨m, none, none⟩ := by
  simp only [create?, Option.bind_some] at created
  split at created
  · rename_i m made
    cases created
    exact ⟨m, made, rfl⟩
  · cases created

theorem run_cases (returned : Host.run fuel (some s) = (some result, some s')) :
    ∃ finish m, s.machine.runFor fuel = (.finished finish, m) ∧ result = finish.result ∧
      s' = { s with machine := m }.keepError finish := by
  simp only [Host.run, run] at returned
  split at returned
  · cases returned
  · rename_i finish m ran
    cases returned
    exact ⟨finish, m, ran, rfl, rfl⟩

@[simp] theorem machine_keepError : (s.keepError finish).machine = s.machine := by
  cases finish <;> rfl

def Reports (s : Session) : Finish → Prop
  | .completed => Host.lastError? (some s) = none ∧ Host.errorIp (some s) = -1
  | .failed fault ip =>
    Host.lastError? (some s) = some fault.message ∧ Host.errorIp (some s) = ip ∧
      ip = s.machine.ip

theorem hasError_of_reports (reports : s.Reports finish) :
    Host.hasError (some s) = finish.result.isErr := by
  cases finish with
  | completed =>
    rw [Host.hasError, reports.1]
    rfl
  | failed fault ip =>
    rw [Host.hasError, reports.1]
    exact fault.kind.isErr_result.symm

/-- The message and the offset of an error are both there or both not, and the offset is one that
the host can get. -/
structure Whole (s : Session) : Prop where
  paired : s.lastError.isSome = s.lastErrorIp.isSome
  bounded : ∀ ip, s.lastErrorIp = some ip → ip < 2 ^ 63

theorem Whole.errorIp_nonneg (whole : s.Whole) :
    Host.hasError (some s) = true ↔ 0 ≤ Host.errorIp (some s) := by
  have paired := whole.paired
  simp only [Host.hasError, Host.lastError?, Host.errorIp, Option.bind_some, paired]
  cases pending : s.lastErrorIp with
  | none => simp
  | some ip =>
    have bound : ip < 0x8000000000000000 := whole.bounded ip pending
    dsimp only
    rw [if_pos bound]
    simp

theorem run_reports {code : Code} (made : Machine.create (.empty none) code config = .ok m₀)
    (small : code.size < 2 ^ 63) (reached : m₀.Reaches s.machine)
    (returned : Host.run fuel (some s) = (some result, some s')) :
    ∃ finish, s.machine.runFor fuel = (.finished finish, s'.machine) ∧ result = finish.result ∧
      s'.Reports finish ∧ s'.Whole := by
  obtain ⟨finish, m, ran, answered, rfl⟩ := run_cases returned
  rw [machine_keepError]
  refine ⟨finish, ran, answered, ?_⟩
  cases finish with
  | completed => exact ⟨⟨rfl, rfl⟩, rfl, nofun⟩
  | failed fault ip =>
    obtain ⟨arises, stopped⟩ := Machine.runFor_failed (reached.safe made) ran
    have after : m₀.Reaches m := .run reached ⟨fuel, ran⟩
    have inside := (after.safe made).ip_le
    have bound : ip < 2 ^ 63 := by omega
    rw [keepError, setError, Host.string?_eq_some (Fault.nul_notMem_message arises)]
    refine ⟨⟨rfl, ?_, stopped.symm⟩, rfl, ?_⟩
    · simp only [Host.errorIp, Option.bind_some]
      exact if_pos bound
    · intro offset same
      cases same
      exact bound

end Session

namespace Request.Returns

variable {request : Request} {s s' : Session} {answer : Option HostResult} {code : Code}
  {config : Config} {m₀ : Machine}

theorem machine_eq (returned : request.Returns s answer s') (other : request ≠ .run) :
    s'.machine = s.machine := by
  cases returned with
  | run _ _ => exact absurd rfl other
  | clearError cleared =>
    cases cleared
    rfl
  | inspect => rfl

theorem runsTo (returned : request.Returns s answer s') (ran : request = .run) :
    ∃ finish, s.machine.RunsTo finish s'.machine := by
  cases returned with
  | run fuel finished =>
    obtain ⟨finish, m, ended, _, rfl⟩ := Session.run_cases finished
    rw [Session.machine_keepError]
    exact ⟨finish, fuel, ended⟩
  | clearError _ => cases ran
  | inspect => cases ran

theorem reaches (returned : request.Returns s answer s') : s.machine.Reaches s'.machine := by
  by_cases ran : request = .run
  · obtain ⟨finish, finished⟩ := returned.runsTo ran
    exact .run .refl finished
  · rw [returned.machine_eq ran]
    exact .refl

theorem reports (returned : request.Returns s answer s') (ran : request = .run)
    (made : Machine.create (.empty none) code config = .ok m₀) (small : code.size < 2 ^ 63)
    (reached : m₀.Reaches s.machine) :
    ∃ finish, s.machine.RunsTo finish s'.machine ∧ answer = some finish.result ∧
      s'.Reports finish := by
  cases returned with
  | run fuel finished =>
    obtain ⟨finish, ended, answered, reports, _⟩ :=
      Session.run_reports made small reached finished
    exact ⟨finish, ⟨fuel, ended⟩, congrArg some answered, reports⟩
  | clearError _ => cases ran
  | inspect => cases ran

theorem whole (returned : request.Returns s answer s')
    (made : Machine.create (.empty none) code config = .ok m₀) (small : code.size < 2 ^ 63)
    (reached : m₀.Reaches s.machine) (whole : s.Whole) : s'.Whole := by
  cases returned with
  | run fuel finished =>
    obtain ⟨_, _, _, _, after⟩ := Session.run_reports made small reached finished
    exact after
  | clearError cleared =>
    cases cleared
    exact ⟨rfl, nofun⟩
  | inspect => exact whole

end Request.Returns

def Machine.afterRuns (r : Nat) (m : Machine) : Machine := (fun m => m.run.2)^[r] m

def runsBefore (requests : Nat → Request) (k : Nat) : Nat :=
  Nat.count (fun j => requests j = .run) k

namespace Hosted

variable {n i j k : Nat} {requests : Nat → Request} {answers : Nat → Option HostResult}
  {sessions : Nat → Session} {code : Code} {config : Config} {finish : Finish}

theorem reaches (hosted : Hosted n requests answers sessions) (bound : k ≤ n) :
    (sessions 0).machine.Reaches (sessions k).machine := by
  induction k with
  | zero => exact .refl
  | succ k ih => exact (ih (by omega)).trans (hosted k bound).reaches

theorem reports (hosted : Hosted n requests answers sessions)
    (made : Machine.create (.empty none) code config = .ok (sessions 0).machine)
    (small : code.size < 2 ^ 63) (bound : k < n) (ran : requests k = .run) :
    ∃ finish, (sessions k).machine.RunsTo finish (sessions (k + 1)).machine ∧
      answers k = some finish.result ∧ (sessions (k + 1)).Reports finish :=
  (hosted k bound).reports ran made small (hosted.reaches (Nat.le_of_lt bound))

theorem whole (hosted : Hosted n requests answers sessions)
    (made : Machine.create (.empty none) code config = .ok (sessions 0).machine)
    (small : code.size < 2 ^ 63) (fresh : (sessions 0).Whole) (bound : k ≤ n) :
    (sessions k).Whole := by
  induction k with
  | zero => exact fresh
  | succ k ih =>
    exact (hosted k bound).whole made small (hosted.reaches (by omega)) (ih (by omega))

theorem machine_eq (hosted : Hosted n requests answers sessions) (bound : k ≤ n) :
    (sessions k).machine = (sessions 0).machine.afterRuns (runsBefore requests k) := by
  induction k with
  | zero => rfl
  | succ k ih =>
    have before := ih (by omega)
    rw [runsBefore, Nat.count_succ]
    by_cases ran : requests k = .run
    · obtain ⟨finish, fuel, ended⟩ := (hosted k bound).runsTo ran
      rw [if_pos ran, Machine.afterRuns, Function.iterate_succ_apply']
      rw [before] at ended
      exact congrArg Prod.snd (Machine.run_of_runFor ended).symm
    · rw [if_neg ran, (hosted k bound).machine_eq ran]
      exact before

theorem machine_eq_of_halted (hosted : Hosted n requests answers sessions)
    (halted : (sessions i).machine.phase = .halted finish) (order : i ≤ j) (bound : j ≤ n) :
    (sessions j).machine = (sessions i).machine := by
  induction j, order using Nat.le_induction with
  | base => rfl
  | succ j _ ih =>
    have before := ih (by omega)
    by_cases ran : requests j = .run
    · obtain ⟨last, fuel, ended⟩ := (hosted j bound).runsTo ran
      rw [before] at ended
      simp only [Machine.runFor, halted] at ended
      exact (congrArg Prod.snd ended).symm
    · rw [(hosted j bound).machine_eq ran]
      exact before

theorem halted_of_run (hosted : Hosted n requests answers sessions)
    (present : (sessions 0).machine.phase ≠ .destroyed) (bound : k < n)
    (ran : requests k = .run) : ∃ last, (sessions (k + 1)).machine.phase = .halted last := by
  obtain ⟨finish, fuel, ended⟩ := (hosted k bound).runsTo ran
  have visited := hosted.reaches (Nat.le_of_lt bound)
  exact Machine.halted_of_runFor (visited.not_destroyed present) ended

end Hosted

/-- A session is its machine with the end of the last run in the hands of the host. After every run
the host finds what the same run of the machine alone comes to: the published number of its fault,
the message and the offset; from the second run on, that the machine has halted where the first run
ended. The message and the offset are there together or not at all, only runs change the machine,
and each kind of fault has a number of its own. -/
theorem session_agrees_with_machine {code : Code} {config : Config} {n : Nat}
    {requests : Nat → Request} {answers : Nat → Option HostResult} {sessions : Nat → Session}
    (created : Session.create? (some code) config = some (sessions 0))
    (small : code.size < 2 ^ 63) (hosted : Hosted n requests answers sessions) :
    ∃ m₀, Machine.create (.empty none) code config = .ok m₀ ∧
      (∀ k ≤ n, (sessions k).machine = m₀.afterRuns (runsBefore requests k)) ∧
      (∀ k ≤ n,
        (Host.hasError (some (sessions k)) = true ↔
          Host.lastError? (some (sessions k)) ≠ none) ∧
        (Host.hasError (some (sessions k)) = true ↔ 0 ≤ Host.errorIp (some (sessions k)))) ∧
      (∀ k < n, requests k = .run → ∃ finish,
        (m₀.afterRuns (runsBefore requests k)).run =
          (.finished finish, (sessions (k + 1)).machine) ∧
        answers k = some finish.result ∧
        (answers k).map HostResult.code = some finish.published ∧
        Host.hasError (some (sessions (k + 1))) = finish.result.isErr ∧
        (finish.result.code = 0 ↔ Host.hasError (some (sessions (k + 1))) = false) ∧
        (sessions (k + 1)).Reports finish) ∧
      (∀ i k, i < k → k < n → requests i = .run → requests k = .run →
        answers k = some .alreadyHalted ∧ (answers k).map HostResult.code = some 14 ∧
        Host.lastError? (some (sessions (k + 1))) = some Fault.alreadyHalted.message ∧
        Host.errorIp (some (sessions (k + 1))) = (sessions (i + 1)).machine.ip) ∧
      (∀ k < n, requests k ≠ .run → (sessions (k + 1)).machine = (sessions k).machine) ∧
      (∀ kind : FaultKind, kind.result.name = "Error" ++ kind.name ∧
        ∀ other : FaultKind, kind.result.code = other.result.code ↔ kind = other) := by
  obtain ⟨m₀, made, fresh⟩ := Session.create?_eq_some created
  have first : (sessions 0).machine = m₀ := by rw [fresh]
  have begun : Machine.create (.empty none) code config = .ok (sessions 0).machine := by
    rw [first]
    exact made
  refine ⟨m₀, made, ?_, ?_, ?_, ?_, ?_, ?_⟩
  · intro k bound
    rw [← first]
    exact hosted.machine_eq bound
  · intro k bound
    have start : (sessions 0).Whole := by
      rw [fresh]
      exact ⟨rfl, nofun⟩
    refine ⟨?_, (hosted.whole begun small start bound).errorIp_nonneg⟩
    rw [Host.hasError, Option.isSome_iff_ne_none]
  · intro k bound ran
    obtain ⟨finish, ⟨fuel, ended⟩, answered, reports⟩ := hosted.reports begun small bound ran
    rw [hosted.machine_eq (Nat.le_of_lt bound), first] at ended
    have pending := Session.hasError_of_reports reports
    refine ⟨finish, Machine.run_of_runFor ended, answered, ?_, pending, ?_, reports⟩
    · rw [answered, Option.map_some, finish.code_result]
    · rw [pending]
      exact HostResult.code_eq_zero
  · intro i k order bound earlier ran
    have present : (sessions 0).machine.phase ≠ .destroyed := by
      obtain ⟨_, _, _, same⟩ := Machine.ofParts_eq_ok begun
      rw [same]
      nofun
    obtain ⟨last, halted⟩ := hosted.halted_of_run present (by omega) earlier
    have same := hosted.machine_eq_of_halted halted order (Nat.le_of_lt bound)
    obtain ⟨finish, ⟨fuel, ended⟩, answered, reports⟩ := hosted.reports begun small bound ran
    rw [same] at ended
    simp only [Machine.runFor, halted] at ended
    have refused := congrArg Prod.fst ended
    cases refused
    exact ⟨answered, congrArg (Option.map HostResult.code) answered, reports.1, reports.2.1⟩
  · intro k bound other
    exact (hosted k bound).machine_eq other
  · intro kind
    exact ⟨kind.name_result, fun other => FaultKind.code_result_inj⟩

/-- A host that runs a division by zero, looks at the error, clears it and runs again. -/
def divisionRequests : Nat → Request
  | 0 => .run
  | 1 => .inspect
  | 2 => .clearError
  | _ => .run

def divisionAnswers : Nat → Option HostResult
  | 0 => some .divisionByZero
  | 3 => some .alreadyHalted
  | _ => none

def divisionSessions (s : Session) : Nat → Session
  | 0 => s
  | 1 | 2 => (s.run 9).2
  | 3 => (s.run 9).2.clearError
  | _ => ((s.run 9).2.clearError.run 0).2

theorem division_session_agrees_with_machine :
    ∃ s, Session.create? (some (.encode [.push 1, .push 0, .arith .div, .halt])) .standard =
        some s ∧
      Hosted 4 divisionRequests divisionAnswers (divisionSessions s) ∧
      (divisionAnswers 0).map HostResult.code = some 11 ∧
      (divisionAnswers 3).map HostResult.code = some 14 ∧
      Host.lastError? (some (divisionSessions s 1)) = some "division by zero" ∧
      Host.errorIp (some (divisionSessions s 1)) = 10 ∧
      Host.hasError (some (divisionSessions s 3)) = false ∧
      (divisionSessions s 3).machine = (divisionSessions s 1).machine ∧
      Host.errorIp (some (divisionSessions s 4)) = 10 := by
  have computed : ∃ s,
      Session.create? (some (.encode [.push 1, .push 0, .arith .div, .halt])) .standard = some s ∧
      (s.run 9).1 = some .divisionByZero ∧ (s.run 9).2.machine.ip = 10 ∧
      ((s.run 9).2.clearError.run 0).1 = some .alreadyHalted :=
    ⟨_, rfl, by decide +kernel, by decide +kernel, by decide +kernel⟩
  obtain ⟨s, created, failed, stopped, refused⟩ := computed
  have hosted : Hosted 4 divisionRequests divisionAnswers (divisionSessions s) := by
    intro k bound
    match k, bound with
    | 0, _ => exact .run 9 (congrArg (·, some (s.run 9).2) failed)
    | 1, _ => exact .inspect _
    | 2, _ => exact .clearError rfl
    | 3, _ => exact .run 0 (congrArg (·, some ((s.run 9).2.clearError.run 0).2) refused)
  have begun : Session.create? (some (.encode [.push 1, .push 0, .arith .div, .halt]))
      .standard = some (divisionSessions s 0) := created
  obtain ⟨m₀, _, _, _, reports, again, kept, _⟩ :=
    session_agrees_with_machine begun (by decide) hosted
  obtain ⟨finish, _, answered, number, _, _, shown⟩ := reports 0 (by decide) rfl
  obtain ⟨_, later, _, halted⟩ := again 0 3 (by decide) (by decide) rfl rfl
  have same := kept 2 (by decide) nofun
  cases finish with
  | completed => cases answered
  | failed fault ip =>
    obtain ⟨message, offset, place⟩ := shown
    have kind : fault.kind = .divisionByZero :=
      FaultKind.code_result_inj.1 (congrArg HostResult.code (Option.some.inj answered).symm)
    cases fault with
    | divisionByZero =>
      refine ⟨s, created, hosted, number, later, message, ?_, rfl, same, ?_⟩
      · rw [offset, place]
        exact congrArg Int.ofNat stopped
      · rw [halted]
        exact congrArg Int.ofNat stopped
    | _ => cases kind

end StackMachine
