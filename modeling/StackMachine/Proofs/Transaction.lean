import Mathlib
import StackMachine.Fault

namespace StackMachine.Action

variable {σ α β : Type}

/-- The result of a transaction that began in the state `s`. When it fails, nothing of it stays. -/
def settle (s : σ) : Except Fault (α × σ) → EStateM.Result Fault σ α
  | .ok (a, s') => .ok a s'
  | .error e => .error e s

def observe (s : σ) : Except Fault α → EStateM.Result Fault σ α
  | .ok a => .ok a s
  | .error e => .error e s

def outcome (action : Action σ α) (s : σ) : Except Fault (α × σ) :=
  match action s with
  | .ok a s' => .ok (a, s')
  | .error e _ => .error e

/-- A failure of the action in this state leaves the state. -/
def Atomic (action : Action σ α) (s : σ) : Prop := action s = settle s (action.outcome s)

def answer (action : Action σ α) (s : σ) : Except Fault α :=
  match action s with
  | .ok a _ => .ok a
  | .error e _ => .error e

def ReadOnly (action : Action σ α) (s : σ) : Prop := action s = observe s (action.answer s)

def residue : EStateM.Result Fault σ α → σ
  | .ok _ s | .error _ s => s

def fault? : EStateM.Result Fault σ α → Option Fault
  | .ok _ _ => none
  | .error e _ => some e

@[simp] theorem settle_ok (s s' : σ) (a : α) : settle s (.ok (a, s')) = .ok a s' := rfl

@[simp] theorem settle_error (s : σ) (e : Fault) :
    settle s (.error e : Except Fault (α × σ)) = .error e s := rfl

@[simp] theorem observe_ok (s : σ) (a : α) : observe s (.ok a) = .ok a s := rfl

@[simp] theorem observe_error (s : σ) (e : Fault) :
    observe s (.error e : Except Fault α) = .error e s := rfl

theorem residue_observe (s : σ) (r : Except Fault α) : residue (observe s r) = s := by
  cases r <;> rfl

theorem answer_of_observe {action : Action σ α} {s : σ} {r : Except Fault α}
    (look : action s = observe s r) : action.answer s = r := by
  unfold answer
  rw [look]
  cases r <;> rfl

theorem settle_eq_ok {s s' : σ} {a : α} {r : Except Fault (α × σ)}
    (h : settle s r = .ok a s') : r = .ok (a, s') := by
  cases r with
  | ok result => cases h; rfl
  | error fault => cases h

theorem outcome_eq_ok {action : Action σ α} {s s' : σ} {a : α}
    (done : action.outcome s = .ok (a, s')) : action s = .ok a s' := by
  unfold outcome at done
  split at done
  · rename_i result
    cases done
    exact result
  · cases done

theorem answer_eq_ok {action : Action σ α} {s : σ} {a : α} (done : action.answer s = .ok a) :
    ∃ s', action s = .ok a s' := by
  unfold answer at done
  split at done
  · rename_i result
    cases done
    exact ⟨_, result⟩
  · cases done

theorem atomic_of_error {action : Action σ α} {s : σ}
    (kept : ∀ e s', action s = .error e s' → s' = s) : action.Atomic s := by
  cases result : action s with
  | ok a s' => simp only [Atomic, outcome, result, settle_ok]
  | error e s' => simp only [Atomic, outcome, result, settle_error, kept e s' result]

theorem Atomic.eq_of_error {action : Action σ α} {s s' : σ} {e : Fault}
    (atomic : action.Atomic s) (failed : action s = .error e s') : s' = s := by
  simp only [Atomic, outcome, failed, settle_error] at atomic
  cases atomic
  rfl

theorem Atomic.residue_of_fault {action : Action σ α} {s : σ} {e : Fault}
    (atomic : action.Atomic s) (failed : fault? (action s) = some e) : residue (action s) = s := by
  cases result : action s with
  | ok a s' =>
    rw [result] at failed
    cases failed
  | error e' s' => exact atomic.eq_of_error result

theorem ReadOnly.residue_eq {action : Action σ α} {s : σ} (reads : action.ReadOnly s) :
    residue (action s) = s := by
  unfold ReadOnly at reads
  rw [reads]
  exact residue_observe s _

theorem readOnly_of_residue {action : Action σ α} {s : σ} (kept : residue (action s) = s) :
    action.ReadOnly s := by
  cases result : action s with
  | ok a s' =>
    rw [result] at kept
    simp only [ReadOnly, answer, result, observe_ok, residue] at kept ⊢
    rw [kept]
  | error e s' =>
    rw [result] at kept
    simp only [ReadOnly, answer, result, observe_error, residue] at kept ⊢
    rw [kept]

theorem bind_of_ok {x : Action σ α} {f : α → Action σ β} {s s' : σ} {a : α}
    (h : x s = .ok a s') : (x >>= f) s = f a s' := by
  simp only [bind, EStateM.bind, h]

theorem bind_of_error {x : Action σ α} {f : α → Action σ β} {s s' : σ} {e : Fault}
    (h : x s = .error e s') : (x >>= f) s = .error e s' := by
  simp only [bind, EStateM.bind, h]

theorem get_bind {f : σ → Action σ α} {s : σ} : ((get : Action σ σ) >>= f) s = f s s := rfl

theorem bind_observe {x : Action σ α} {f : α → Action σ β} {s : σ} {r : Except Fault α}
    {g : α → Except Fault (β × σ)} (look : x s = observe s r)
    (rest : ∀ a, r = .ok a → f a s = settle s (g a)) :
    (x >>= f) s = settle s (r >>= g) := by
  cases r with
  | ok a => exact (bind_of_ok look).trans (rest a rfl)
  | error e => exact bind_of_error look

theorem bind_observe_map {τ : Type} {x : Action σ α} {f : α → Action σ β} {s : σ}
    {r : Except Fault α} {g : α → Except Fault τ} {h : τ → β × σ} (look : x s = observe s r)
    (rest : ∀ a, r = .ok a → f a s = settle s ((g a).map h)) :
    (x >>= f) s = settle s ((r >>= g).map h) := by
  cases r with
  | ok a => exact (bind_of_ok look).trans (rest a rfl)
  | error e => exact bind_of_error look

theorem bind_eq_ok {x : Except Fault α} {f : α → Except Fault β} {b : β}
    (h : x >>= f = .ok b) : ∃ a, x = .ok a ∧ f a = .ok b := by
  cases x with
  | error e => cases h
  | ok a => exact ⟨a, rfl, h⟩

theorem map_eq_ok {x : Except Fault α} {f : α → β} {b : β}
    (h : x.map f = .ok b) : ∃ a, x = .ok a ∧ f a = b := by
  cases x with
  | error e => cases h
  | ok a => exact ⟨a, rfl, Except.ok.inj h⟩

end StackMachine.Action
