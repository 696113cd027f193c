import StackMachine.Proofs.Run

namespace StackMachine.Machine

variable {m m' m₀ : Machine} {journal : Journal} {code : Code} {stack : OperandStack}
  {heap : Heap} {config : Config}

theorem ofParts_coherent (built : stack.Built)
    (made : ofParts journal code stack heap config = .ok m) : m.Coherent := by
  obtain ⟨_, _, _, rfl⟩ := ofParts_eq_ok made
  refine ⟨built.wellFormed, Nat.zero_lt_one, List.pairwise_singleton _ _, Nat.zero_le _⟩

theorem Reaches.coherent (built : stack.Built)
    (made : ofParts journal code stack heap config = .ok m₀) (reached : m₀.Reaches m) :
    m.Coherent :=
  reached.invariant (ofParts_coherent built made) fun coherent turn => turn.coherent coherent

def haltedBy (e : Fault) (m : Machine) : Machine :=
  { m with phase := .halted (.failed e m.ip) }

theorem fail_of_cycle (coherent : m.Coherent) {e : Fault} (failed : cycle m = .error e m') :
    ∃ journal, m'.fail e m.ip =
      (.finished (.failed e m.ip), { m.haltedBy e with journal := journal }) := by
  have same := cycle_eq_error coherent failed
  refine ⟨(m'.fail e m.ip).2.journal, ?_⟩
  rw [same]
  rfl

/-- A slice that ends with a fault other than an exhausted budget ends at a cycle that fails, in a
state at which a shorter slice yields. -/
theorem slice_eq_failed {fuel ip : Nat} {e : Fault}
    (failed : slice fuel m = (.finished (.failed e ip), m'))
    (other : ∀ budget, e ≠ .budgetExhausted budget) :
    ∃ k before after, k < fuel ∧ slice k m = (.yielded, before) ∧
      cycle before = .error e after ∧ (.finished (.failed e ip), m') = after.fail e before.ip := by
  induction fuel generalizing m with
  | zero =>
    unfold slice at failed
    cases exhausted : m.exhausted? with
    | some budget =>
      simp only [exhausted] at failed
      cases failed
      exact absurd rfl (other budget)
    | none =>
      simp only [exhausted] at failed
      cases failed
  | succ fuel ih =>
    unfold slice at failed
    cases exhausted : m.exhausted? with
    | some budget =>
      simp only [exhausted] at failed
      cases failed
      exact absurd rfl (other budget)
    | none =>
      cases turn : cycle m with
      | error fault after =>
        simp only [exhausted, turn] at failed
        have yielded : slice 0 m = (.yielded, m) := by simp only [slice, exhausted]
        have same : e = fault := by cases failed; rfl
        subst same
        exact ⟨0, m, after, Nat.succ_pos fuel, yielded, turn, failed.symm⟩
      | ok more after =>
        cases more with
        | false =>
          simp only [exhausted, turn] at failed
          cases failed
        | true =>
          simp only [exhausted, turn] at failed
          obtain ⟨k, before, last, shorter, yielded, stuck, result⟩ := ih failed
          refine ⟨k + 1, before, last, Nat.succ_lt_succ shorter, ?_, stuck, result⟩
          simp only [slice, exhausted, turn, yielded]

theorem runFor_eq_failed {fuel ip : Nat} {e : Fault}
    (live : m.phase = .ready ∨ m.phase = .running)
    (other : ∀ budget, e ≠ .budgetExhausted budget)
    (failed : m.runFor fuel = (.finished (.failed e ip), m')) :
    ∃ k before after, k < fuel ∧ m.runFor k = (.yielded, before) ∧
      cycle before = .error e after ∧ (.finished (.failed e ip), m') = after.fail e before.ip := by
  rcases live with ready | running
  · simp only [runFor, ready] at failed ⊢
    exact slice_eq_failed failed other
  · simp only [runFor, running] at failed ⊢
    exact slice_eq_failed failed other

/-- A cycle that fails changes nothing but the journal. An execution call that comes to it halts the
machine with its fault at its offset; and every call that reports a fault, other than an exhausted
budget, has come to such a cycle. -/
theorem failed_cycle_changes_nothing (built : stack.Built)
    (made : ofParts journal code stack heap config = .ok m₀) (reached : m₀.Reaches m) :
    (∀ e after, m.cycle = .error e after → after = { m with journal := after.journal }) ∧
    (∀ e after fuel, m.phase = .running → m.exhausted? = none → m.cycle = .error e after →
      ∃ journal, m.runFor (fuel + 1) =
        (.finished (.failed e m.ip), { m.haltedBy e with journal := journal })) ∧
    (∀ fuel e ip m', m.phase = .ready ∨ m.phase = .running →
      (∀ budget, e ≠ .budgetExhausted budget) →
      m.runFor fuel = (.finished (.failed e ip), m') →
      ∃ k before after, k < fuel ∧ m.runFor k = (.yielded, before) ∧
        before.cycle = .error e after ∧ ip = before.ip ∧
        ∃ journal, m' = { before.haltedBy e with journal := journal }) := by
  have coherent := reached.coherent built made
  refine ⟨fun e after failed => cycle_eq_error coherent failed, ?_, ?_⟩
  · intro e after fuel running unlimited failed
    obtain ⟨journal, result⟩ := fail_of_cycle coherent failed
    refine ⟨journal, ?_⟩
    simp only [runFor, running, slice, unlimited, failed, result]
  · intro fuel e ip m' live other failed
    obtain ⟨k, before, after, shorter, yielded, stuck, result⟩ :=
      runFor_eq_failed live other failed
    have visited : m₀.Reaches before := by
      have slice := Reaches.runFor k reached
      rwa [yielded] at slice
    obtain ⟨journal, halted⟩ := fail_of_cycle (visited.coherent built made) stuck
    rw [halted] at result
    refine ⟨k, before, after, shorter, yielded, stuck, ?_, journal, ?_⟩
    · cases result
      rfl
    · exact congrArg Prod.snd result

/-- A host stack with one value below its floor. -/
def guardedStack : OperandStack :=
  OperandStack.Op.apply (.setFloor 1) (OperandStack.Op.apply (.push (.int 5)) (.empty 8))

theorem failed_return_changes_nothing :
    ∃ m₀ m,
      ofParts (.empty none) (.encode [.call 6 0, .ret 1]) guardedStack (.empty 64) .standard =
        .ok m₀ ∧ m₀.Reaches m ∧ m.calls.depth = 1 ∧
      ∃ journal, m.runFor 9 = (.finished (.failed .stackUnderflow 6),
        { m.haltedBy .stackUnderflow with journal := journal }) := by
  have built : guardedStack.Built := .apply _ (.apply _ (.empty 8))
  have made : ofParts (.empty none) (.encode [.call 6 0, .ret 1]) guardedStack (.empty 64)
      .standard = .ok _ := rfl
  refine ⟨_, _, made, .runFor 1 .refl, by decide +kernel, ?_⟩
  refine (failed_cycle_changes_nothing built made (.runFor 1 .refl)).2.1 .stackUnderflow ?_ 8
    (by decide +kernel) (by decide +kernel) ?_
  rotate_left
  · cbv
    rfl

end StackMachine.Machine
