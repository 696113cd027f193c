import StackMachine.Proofs.Atomicity
import StackMachine.Proofs.References
import StackMachine.Proofs.Slices

namespace StackMachine

namespace Heap

variable {heap heap' : Heap} {h : Handle}

def Evolves : Heap → Heap → Prop :=
  Relation.ReflTransGen fun heap heap' => ∃ op : Op, heap' = op.apply heap

theorem Evolves.invariant {P : Heap → Prop} (evolves : heap.Evolves heap')
    (kept : ∀ (heap : Heap) (op : Op), P heap → P (op.apply heap)) (holds : P heap) : P heap' := by
  induction evolves with
  | refl => exact holds
  | tail _ change ih =>
    obtain ⟨op, rfl⟩ := change
    exact kept _ op ih

theorem Evolves.tidy (evolves : heap.Evolves heap') (tidy : heap.Tidy) : heap'.Tidy :=
  evolves.invariant (P := Tidy) (fun _ op tidy => tidy.apply op) tidy

theorem Evolves.tidy_invariant {P : Heap → Prop} (evolves : heap.Evolves heap')
    (tidy : heap.Tidy) (kept : ∀ heap : Heap, heap.Tidy → ∀ op : Op, P heap → P (op.apply heap))
    (holds : P heap) : P heap' := by
  have both := evolves.invariant (P := fun heap => heap.Tidy ∧ P heap)
    (fun heap op both => ⟨both.1.apply op, kept heap both.1 op both.2⟩) ⟨tidy, holds⟩
  exact both.2

theorem Evolves.used (evolves : heap.Evolves heap') (tidy : heap.Tidy) (used : heap.Used h) :
    heap'.Used h :=
  evolves.tidy_invariant (P := (Used · h)) tidy (fun _ tidy op used => used.apply tidy op) used

theorem Used.slot (used : heap.Used h) :
    ∃ slot, heap.slots[h.index]? = some slot ∧ h.generation ≤ slot.generation := by
  obtain ⟨generation, occupied, known, passed⟩ := used
  obtain ⟨slot, found, rfl, _⟩ := occupancy_iff.mp known
  exact ⟨slot, found, by omega⟩

theorem get?_of_apply (tidy : heap.Tidy) (used : heap.Used h) (op : Op) {object : Object}
    (present : (op.apply heap).get? h = some object) :
    ∃ before, heap.get? h = some before ∧ object.kind = before.kind ∧
      object.length = before.length := by
  have step := op.step_apply heap
  generalize op.apply heap = heap' at step present
  cases step with
  | unchanged => exact ⟨object, present, rfl, rfl⟩
  | @allocated kind n g _ done =>
    have issues : (Op.allocate kind n).Issues heap g := ⟨_, done⟩
    have other : h ≠ g := by
      rintro rfl
      exact issues.unused tidy used
    rw [(allocate_get? tidy done).2, Function.update_of_ne other] at present
    exact ⟨object, present, rfl, rfl⟩
  | @written g field v _ done =>
    obtain ⟨before, found, _, changed⟩ := write_get? done
    rw [changed] at present
    by_cases here : h = g
    · subst here
      rw [Function.update_self] at present
      cases present
      exact ⟨before, found, before.kind_put field v, before.length_put field v⟩
    · rw [Function.update_of_ne here] at present
      exact ⟨object, present, rfl, rfl⟩
  | @released g _ done =>
    rw [(release_get? done).2] at present
    by_cases here : h = g
    · subst here
      rw [Function.update_self] at present
      cases present
    · rw [Function.update_of_ne here] at present
      exact ⟨object, present, rfl, rfl⟩
  | cleared =>
    rw [clear_get?] at present
    cases present

theorem Evolves.get? (evolves : heap.Evolves heap') (tidy : heap.Tidy) (used : heap.Used h)
    {object : Object} (present : heap'.get? h = some object) :
    ∃ before, heap.get? h = some before ∧ object.kind = before.kind ∧
      object.length = before.length := by
  induction evolves generalizing object with
  | refl => exact ⟨object, present, rfl, rfl⟩
  | tail before change ih =>
    obtain ⟨op, rfl⟩ := change
    obtain ⟨middle, found, kind, length⟩ :=
      get?_of_apply (Evolves.tidy before tidy) (Evolves.used before tidy used) op present
    obtain ⟨first, there, sameKind, sameLength⟩ := ih found
    exact ⟨first, there, kind.trans sameKind, length.trans sameLength⟩

theorem Evolves.isLive (evolves : heap.Evolves heap') (tidy : heap.Tidy) (used : heap.Used h)
    (live : heap'.isLive h = true) : heap.isLive h = true := by
  obtain ⟨object, present⟩ := Option.isSome_iff_exists.mp live
  obtain ⟨before, found, _⟩ := evolves.get? tidy used present
  rw [Heap.isLive, found]
  rfl

end Heap

namespace Instr

def handleDepth? : Instr → Option Nat
  | .getField _ | .len | .free => some 0
  | .setField _ | .getIndex => some 1
  | .setIndex => some 2
  | _ => none

def indexDepth? : Instr → Option Nat
  | .getIndex => some 0
  | .setIndex => some 1
  | _ => none

end Instr

namespace Machine

variable {m m' m₀ : Machine} {h : Handle} {kind : ObjectKind} {size : UInt32}

theorem cycle_carries (coherent : m.Coherent) (tidy : m.heap.Tidy) {more : Bool}
    (done : cycle m = .ok more m') :
    ∃ i next, m.code.decode m.ip = .ok (i, next) ∧ Carries i m m' := by
  obtain ⟨i, next, control, after, decoded, result, advanced⟩ := effect_of_cycle coherent done
  have carries := effect_carries (m := m.note (.dispatched m.ip i m.stack.depth)) tidy result
  refine ⟨i, next, decoded, ?_⟩
  cases control <;> cases advanced <;> exact ⟨carries.held, carries.heap⟩

theorem Turn.evolves (turn : Turn m m') (coherent : m.Coherent) (tidy : m.heap.Tidy) :
    m.heap.Evolves m'.heap := by
  have completed : ∀ {more after}, cycle m = .ok more after → m.heap.Evolves after.heap := by
    intro more after done
    obtain ⟨_, _, _, carries⟩ := cycle_carries coherent tidy done
    rcases carries.heap with same | changed
    · rw [same]
      exact .refl
    · exact .single changed
  cases turn with
  | start _ => exact .refl
  | exhaust _ => exact .refl
  | next done => exact completed done
  | complete done =>
    have evolves := completed done
    exact evolves
  | fail failed =>
    have same := cycle_eq_error coherent failed
    change m.heap.Evolves _
    rw [same]
    exact .refl

theorem Reaches.evolves (reached : m.Reaches m') (coherent : m.Coherent) (tidy : m.heap.Tidy) :
    m'.Coherent ∧ m.heap.Evolves m'.heap := by
  refine Reaches.invariant (P := fun m' => m'.Coherent ∧ m.heap.Evolves m'.heap) reached
    ⟨coherent, .refl⟩ ?_
  rintro before after ⟨kept, evolves⟩ turn
  exact ⟨turn.coherent kept, evolves.trans (turn.evolves kept (evolves.tidy tidy))⟩

theorem create_coherent {journal : Journal} {code : Code} {config : Config}
    (made : create journal code config = .ok m) : m.Coherent ∧ m.heap.Tidy := by
  refine ⟨ofParts_coherent (.empty _) made, ?_⟩
  obtain ⟨_, _, _, rfl⟩ := ofParts_eq_ok made
  exact ⟨List.nodup_nil, nofun⟩

theorem Reaches.coherent_tidy {journal : Journal} {code : Code} {config : Config}
    (made : create journal code config = .ok m₀) (reached : m₀.Reaches m) :
    m.Coherent ∧ m.heap.Tidy := by
  obtain ⟨coherent, tidy⟩ := create_coherent made
  obtain ⟨still, evolves⟩ := reached.evolves coherent tidy
  exact ⟨still, evolves.tidy tidy⟩

/-- The machine is about to complete an instruction that makes an object and pushes the reference
`h` to it. -/
structure Makes (m : Machine) (kind : ObjectKind) (size : UInt32) (h : Handle) : Prop where
  running : m.phase = .running
  unexhausted : m.exhausted? = none
  instruction : ∃ next, m.code.decode m.ip = .ok (.new kind size, next)
  completed : ∃ more m', cycle m = .ok more m' ∧
    Heap.allocate kind size.toNat m.heap = .ok h m'.heap ∧
    m'.stack.values = m.stack.values.push (.ref h)

theorem Makes.allocate (makes : m.Makes kind size h) :
    Heap.allocate kind size.toNat m.heap = .ok h m.step.2.heap := by
  obtain ⟨more, after, done, allocated, _⟩ := makes.completed
  rw [(step_of_cycle makes.running makes.unexhausted done).2]
  exact allocated

theorem Holds.of_step (coherent : m.Coherent) (tidy : m.heap.Tidy) (running : m.phase = .running)
    (held : m.step.2.Holds h) : m.Holds h ∨ ∃ kind size, m.Makes kind size h := by
  unfold Holds at held
  rcases step_cases coherent running with ⟨thread, heap⟩ | ⟨more, after, unexhausted, done, same⟩
  · rw [thread, heap] at held
    exact .inl held
  · rw [same.1, same.2] at held
    obtain ⟨i, next, decoded, carries⟩ := cycle_carries coherent tidy done
    rcases carries.held h held with older | ⟨kind, size, rfl, allocated, pushed⟩
    · exact .inl older
    · exact .inr ⟨kind, size, running, unexhausted, ⟨next, decoded⟩,
        ⟨more, after, done, allocated, pushed⟩⟩

theorem not_holds_create {journal : Journal} {code : Code} {config : Config}
    (made : create journal code config = .ok m) : ¬ m.Holds h := by
  obtain ⟨_, _, _, rfl⟩ := ofParts_eq_ok made
  rintro ((value | ⟨frame, member, inside⟩) | ⟨g, fields, present, _⟩)
  · simp [OperandStack.empty] at value
  · have root : frame = .blank 0 0 config.localsPerFrame := by simpa [CallStack.root] using member
    subst root
    have null := Array.eq_of_mem_replicate inside
    cases null
  · cases present

theorem Reaches.maker {journal : Journal} {code : Code} {config : Config}
    (made : create journal code config = .ok m₀) (reached : m₀.Reaches m) (held : m.Holds h) :
    ∃ maker kind size, m₀.Reaches maker ∧ maker.Makes kind size h ∧ maker.step.2.Reaches m := by
  revert h
  -- A run or a slice is taken as single steps: the state that makes `h` lies inside of it.
  refine Reaches.stepwise (P := fun m => ∀ {h}, m.Holds h → ∃ maker kind size, m₀.Reaches maker ∧
    maker.Makes kind size h ∧ maker.step.2.Reaches m) reached ?_ ?_ ?_
  · intro h held
    exact absurd held (not_holds_create made)
  · intro m visited holders h held
    unfold Holds at held
    rw [(runFor_zero_keeps m).1, (runFor_zero_keeps m).2] at held
    obtain ⟨maker, kind, size, before, makes, after⟩ := holders held
    exact ⟨maker, kind, size, before, makes, .runFor 0 after⟩
  · intro m visited running holders h held
    obtain ⟨coherent, tidy⟩ := visited.coherent_tidy made
    rcases Holds.of_step coherent tidy running held with older | ⟨kind, size, makes⟩
    · obtain ⟨maker, kind, size, before, makes, after⟩ := holders older
      exact ⟨maker, kind, size, before, makes, .step after⟩
    · exact ⟨m, kind, size, visited, makes, .refl⟩

theorem Makes.born (makes : m.Makes kind size h) (coherent : m.Coherent) (tidy : m.heap.Tidy) :
    m.step.2.Coherent ∧ m.step.2.heap.Tidy ∧
      m.step.2.heap.get? h = some (.blank kind size.toNat) := by
  have once : m.Reaches m.step.2 := .step .refl
  obtain ⟨still, evolves⟩ := once.evolves coherent tidy
  refine ⟨still, evolves.tidy tidy, ?_⟩
  rw [(Heap.allocate_get? tidy makes.allocate).2, Function.update_self]

theorem Makes.later (makes : m.Makes kind size h) (coherent : m.Coherent) (tidy : m.heap.Tidy)
    (reached : m.step.2.Reaches m') :
    m'.heap.Tidy ∧ m'.heap.Used h ∧ ∀ object, m'.heap.get? h = some object →
      object.kind = kind ∧ object.length = size.toNat := by
  obtain ⟨still, neat, born⟩ := makes.born coherent tidy
  obtain ⟨_, evolves⟩ := reached.evolves still neat
  have used : m.step.2.heap.Used h := by
    apply Heap.Used.of_live neat
    rw [Heap.isLive, born]
    rfl
  refine ⟨evolves.tidy neat, evolves.used neat used, ?_⟩
  intro object present
  obtain ⟨before, found, sameKind, sameLength⟩ := evolves.get? neat used present
  rw [born] at found
  cases found
  exact ⟨sameKind.trans (Object.kind_blank kind _), sameLength.trans (Object.length_blank kind _)⟩

theorem Makes.once (makes : m.Makes kind size h) (coherent : m.Coherent) (tidy : m.heap.Tidy)
    (reached : m.step.2.Reaches m') {kind' : ObjectKind} {size' : UInt32} :
    ¬ m'.Makes kind' size' h := by
  intro again
  obtain ⟨neat, used, _⟩ := makes.later coherent tidy reached
  have issues : (Heap.Op.allocate kind' size'.toNat).Issues m'.heap h := ⟨_, again.allocate⟩
  exact issues.unused neat used

/-- The next instruction is `i`, the machine can execute it, and the object that it works on is
named by `h`. -/
structure AppliesTo (m : Machine) (i : Instr) (h : Handle) : Prop where
  active : m.phase = .ready ∨ m.phase = .running
  unexhausted : m.exhausted? = none
  instruction : ∃ next, m.code.decode m.ip = .ok (i, next)
  operand : ∃ n, i.handleDepth? = some n ∧ m.stack.operand n = .ok (.ref h)

/-- Every execution call fails with `e` at the next instruction, and leaves all of the machine but
its phase and its journal. -/
def HaltsWith (m : Machine) (e : Fault) : Prop :=
  ∀ fuel, ∃ journal, m.runFor (fuel + 1) =
    (.finished (.failed e m.ip), { m.haltedBy e with journal := journal })

theorem handleAt_of_ref {n : Nat} {op : Opcode} (found : m.stack.operand n = .ok (.ref h)) :
    m.handleAt n op = .ok h := by
  rw [handleAt, found]
  rfl

theorem indexAt_of_int {n : Nat} {op : Opcode} {z : Int64}
    (found : m.stack.operand n = .ok (.int z)) :
    m.indexAt n op = .ok (if z.toInt < 0 then Heap.maxSize else z.toInt.toNat) := by
  rw [indexAt, found]
  rfl

theorem indexAt_of_other {n : Nat} {op : Opcode} {v : Value} (found : m.stack.operand n = .ok v)
    (other : v.isInt = false) : m.indexAt n op = .error (.mismatch op.mnemonic v) := by
  rw [indexAt, found]
  cases v with
  | int k => cases other
  | _ => rfl

theorem effect_of_dead {i : Instr} {n next : Nat} (dead : m.heap.isLive h = false)
    (takes : i.handleDepth? = some n) (found : m.stack.operand n = .ok (.ref h))
    (indexed : ∀ k, i.indexDepth? = some k → ∃ z, m.stack.operand k = .ok (.int z)) :
    m.effect i next = .error (.invalidHandle h) := by
  obtain ⟨read, write, length, release⟩ := Heap.invalid_of_not_live dead
  have above := OperandStack.lt_available_of_operand found
  cases i with
  | getField field =>
    cases takes
    unfold effect change
    simp only [handleAt_of_ref found, bind, Except.bind, Action.answer, read]
    rfl
  | setField field =>
    cases takes
    obtain ⟨v, top⟩ := OperandStack.exists_operand (Nat.zero_lt_of_lt above)
    unfold effect change
    simp only [top, handleAt_of_ref found, bind, Except.bind, heapEffect, Action.outcome, write]
    rfl
  | getIndex =>
    cases takes
    obtain ⟨z, integer⟩ := indexed 0 rfl
    unfold effect change
    simp only [indexAt_of_int integer, handleAt_of_ref found, bind, Except.bind, Action.answer, read]
    rfl
  | setIndex =>
    cases takes
    obtain ⟨z, integer⟩ := indexed 1 rfl
    obtain ⟨v, top⟩ := OperandStack.exists_operand (Nat.zero_lt_of_lt above)
    unfold effect change
    simp only [top, indexAt_of_int integer, handleAt_of_ref found, bind, Except.bind, heapEffect,
      Action.outcome, write]
    rfl
  | len =>
    cases takes
    unfold effect change
    simp only [handleAt_of_ref found, bind, Except.bind, Action.answer, length]
    rfl
  | free =>
    cases takes
    unfold effect change
    simp only [handleAt_of_ref found, bind, Except.bind, heapEffect, Action.outcome, release]
    rfl
  | _ => cases takes

theorem effect_of_mistyped {i : Instr} {n next : Nat} {v : Value} (takes : i.indexDepth? = some n)
    (found : m.stack.operand n = .ok v) (other : v.isInt = false) :
    m.effect i next = .error (.mismatch i.mnemonic v) := by
  have above := OperandStack.lt_available_of_operand found
  cases i with
  | getIndex =>
    cases takes
    unfold effect change
    simp only [indexAt_of_other found other]
    rfl
  | setIndex =>
    cases takes
    obtain ⟨top, first⟩ := OperandStack.exists_operand (Nat.zero_lt_of_lt above)
    unfold effect change
    simp only [first, indexAt_of_other found other]
    rfl
  | _ => cases takes

theorem slice_of_effect (coherent : m.Coherent) (unexhausted : m.exhausted? = none) {i : Instr}
    {next : Nat} {e : Fault} (decoded : m.code.decode m.ip = .ok (i, next))
    (failed : (m.note (.dispatched m.ip i m.stack.depth)).effect i next = .error e) (fuel : Nat) :
    ∃ journal, slice (fuel + 1) m =
      (.finished (.failed e m.ip), { m.haltedBy e with journal := journal }) := by
  have turn := cycle_eq coherent decoded
  rw [failed] at turn
  obtain ⟨journal, result⟩ := fail_of_cycle coherent turn
  refine ⟨journal, ?_⟩
  simp only [slice, unexhausted, turn, result]

theorem AppliesTo.haltsWith {i : Instr} {e : Fault} (applies : m.AppliesTo i h)
    (coherent : m.Coherent)
    (failed : ∀ (m' : Machine) (next : Nat), m'.stack = m.stack → m'.heap = m.heap →
      m'.effect i next = .error e) : m.HaltsWith e := by
  obtain ⟨next, decoded⟩ := applies.instruction
  intro fuel
  rcases applies.active with ready | running
  · rw [runFor_ready ready]
    have begun : m.started.Coherent := coherent
    exact slice_of_effect begun applies.unexhausted decoded (failed _ next rfl rfl) fuel
  · rw [runFor_running running]
    exact slice_of_effect coherent applies.unexhausted decoded (failed _ next rfl rfl) fuel

theorem AppliesTo.dead {i : Instr} (applies : m.AppliesTo i h) (coherent : m.Coherent)
    (dead : m.heap.isLive h = false) :
    ((∀ k, i.indexDepth? = some k → ∃ z, m.stack.operand k = .ok (.int z)) →
      m.HaltsWith (.invalidHandle h)) ∧
    ∀ k v, i.indexDepth? = some k → m.stack.operand k = .ok v → v.isInt = false →
      m.HaltsWith (.mismatch i.mnemonic v) := by
  obtain ⟨n, takes, found⟩ := applies.operand
  constructor
  · intro indexed
    apply applies.haltsWith coherent
    intro m' next stack heap
    rw [← heap] at dead
    rw [← stack] at found indexed
    exact effect_of_dead dead takes found indexed
  · intro k v position there other
    apply applies.haltsWith coherent
    intro m' next stack _
    rw [← stack] at there
    exact effect_of_mistyped position there other

/-- A reference that a machine holds was made by one allocation of its program and by no other. Its
slot exists and is at its generation or past it. While it is live, it names the object that was made
then; and once it is not, every instruction that is applied to it halts the machine and touches
nothing. -/
theorem references_come_from_allocations {journal : Journal} {code : Code} {config : Config}
    (made : create journal code config = .ok m₀) (reached : m₀.Reaches m) (held : m.Holds h) :
    (∃ maker kind size, m₀.Reaches maker ∧ maker.Makes kind size h ∧ maker.step.2.Reaches m ∧
      (∀ other kind size, m₀.Reaches other →
        other.step.2.Reaches maker ∨ maker.step.2.Reaches other → ¬ other.Makes kind size h) ∧
      (m.heap.isLive h = true →
        (∃ object, m.heap.get? h = some object ∧ object.kind = kind ∧
          object.length = size.toNat) ∧
        ∀ m', maker.step.2.Reaches m' → m'.Reaches m → m'.heap.isLive h = true)) ∧
    (∃ slot, m.heap.slots[h.index]? = some slot ∧ h.generation ≤ slot.generation) ∧
    (m.heap.isLive h = false → ∀ later, m.Reaches later →
      later.heap.isLive h = false ∧
      ∀ i, later.AppliesTo i h →
        ((∀ k, i.indexDepth? = some k → ∃ z, later.stack.operand k = .ok (.int z)) →
          later.HaltsWith (.invalidHandle h)) ∧
        ∀ k v, i.indexDepth? = some k → later.stack.operand k = .ok v → v.isInt = false →
          later.HaltsWith (.mismatch i.mnemonic v)) := by
  obtain ⟨maker, kind, size, before, makes, after⟩ := reached.maker made held
  obtain ⟨kept, neat⟩ := before.coherent_tidy made
  obtain ⟨coherent, tidy⟩ := reached.coherent_tidy made
  obtain ⟨_, used, same⟩ := makes.later kept neat after
  refine ⟨⟨maker, kind, size, before, makes, after, ?_, ?_⟩, used.slot, ?_⟩
  · rintro other kind' size' visited (earlier | later) again
    · obtain ⟨coherent', tidy'⟩ := visited.coherent_tidy made
      exact again.once coherent' tidy' earlier makes
    · exact makes.once kept neat later again
  · intro live
    obtain ⟨object, present⟩ := Option.isSome_iff_exists.mp live
    refine ⟨⟨object, present, same object present⟩, ?_⟩
    intro between since onwards
    obtain ⟨coherent', tidy'⟩ := ((Reaches.step before).trans since).coherent_tidy made
    obtain ⟨_, used', _⟩ := makes.later kept neat since
    obtain ⟨_, evolves⟩ := onwards.evolves coherent' tidy'
    exact evolves.isLive tidy' used' live
  · intro dead later onwards
    obtain ⟨lasting, evolves⟩ := onwards.evolves coherent tidy
    have gone : later.heap.isLive h = false := by
      rw [Bool.eq_false_iff] at dead ⊢
      intro live
      exact dead (evolves.isLive tidy used live)
    exact ⟨gone, fun i applies => applies.dead lasting gone⟩

def staleProgram (last : List Instr) : Code :=
  .encode ([.new .record 1, .dup, .free, .new .bytes 2, .swap] ++ last)

theorem stale_reference_comes_from_allocation :
    ∃ m₀, create (.empty none) (staleProgram [.len]) .standard = .ok m₀ ∧
      m₀.Reaches (m₀.runFor 5).2 ∧ (m₀.runFor 5).2.Holds ⟨0, 0⟩ ∧
      (m₀.runFor 5).2.heap.isLive ⟨0, 0⟩ = false ∧ (m₀.runFor 5).2.heap.isLive ⟨0, 1⟩ = true ∧
      (∃ maker kind size, m₀.Reaches maker ∧ maker.Makes kind size ⟨0, 0⟩) ∧
      (m₀.runFor 5).2.AppliesTo .len ⟨0, 0⟩ ∧
      (m₀.runFor 5).2.HaltsWith (.invalidHandle ⟨0, 0⟩) := by
  have computed : ∃ m₀, create (.empty none) (staleProgram [.len]) .standard = .ok m₀ ∧
      .ref ⟨0, 0⟩ ∈ (m₀.runFor 5).2.stack.values ∧
      (m₀.runFor 5).2.heap.isLive ⟨0, 0⟩ = false ∧ (m₀.runFor 5).2.heap.isLive ⟨0, 1⟩ = true ∧
      (m₀.runFor 5).2.phase = .running ∧ (m₀.runFor 5).2.exhausted? = none ∧
      (m₀.runFor 5).2.code.decode (m₀.runFor 5).2.ip = .ok (.len, 14) ∧
      (m₀.runFor 5).2.stack.operand 0 = .ok (.ref ⟨0, 0⟩) :=
    ⟨_, rfl, by decide +kernel, by decide +kernel, by decide +kernel, by decide +kernel,
      by decide +kernel, by cbv, by cbv⟩
  obtain ⟨m₀, made, pushed, dead, recycled, running, unexhausted, decoded, operand⟩ := computed
  have reached : m₀.Reaches (m₀.runFor 5).2 := .runFor 5 .refl
  have held : (m₀.runFor 5).2.Holds ⟨0, 0⟩ := .inl (.inl pushed)
  have applies : (m₀.runFor 5).2.AppliesTo .len ⟨0, 0⟩ :=
    ⟨.inr running, unexhausted, ⟨14, decoded⟩, 0, rfl, operand⟩
  obtain ⟨⟨maker, kind, size, before, makes, _⟩, _, after⟩ :=
    references_come_from_allocations made reached held
  have unindexed : ∀ k, Instr.len.indexDepth? = some k →
      ∃ z, (m₀.runFor 5).2.stack.operand k = .ok (.int z) := by
    intro k position
    cases position
  have halts := ((after dead _ .refl).2 .len applies).1 unindexed
  exact ⟨m₀, made, reached, held, dead, recycled, ⟨maker, kind, size, before, makes⟩, applies,
    halts⟩

/-- An index that is not an integer comes before a handle that is not live. -/
theorem mistyped_index_precedes_dead_handle :
    ∃ m₀, create (.empty none) (staleProgram [.pushNull, .getIndex]) .standard = .ok m₀ ∧
      m₀.Reaches (m₀.runFor 6).2 ∧ (m₀.runFor 6).2.Holds ⟨0, 0⟩ ∧
      (m₀.runFor 6).2.heap.isLive ⟨0, 0⟩ = false ∧
      (m₀.runFor 6).2.AppliesTo .getIndex ⟨0, 0⟩ ∧
      (m₀.runFor 6).2.step.1 = .finished (.failed (.typeMismatch "GETINDEX" "null") 14) ∧
      ¬ (m₀.runFor 6).2.HaltsWith (.invalidHandle ⟨0, 0⟩) := by
  have computed : ∃ m₀,
      create (.empty none) (staleProgram [.pushNull, .getIndex]) .standard = .ok m₀ ∧
      .ref ⟨0, 0⟩ ∈ (m₀.runFor 6).2.stack.values ∧
      (m₀.runFor 6).2.heap.isLive ⟨0, 0⟩ = false ∧
      (m₀.runFor 6).2.phase = .running ∧ (m₀.runFor 6).2.exhausted? = none ∧
      (m₀.runFor 6).2.code.decode (m₀.runFor 6).2.ip = .ok (.getIndex, 15) ∧
      (m₀.runFor 6).2.stack.operand 1 = .ok (.ref ⟨0, 0⟩) ∧
      (m₀.runFor 6).2.step.1 = .finished (.failed (.typeMismatch "GETINDEX" "null") 14) :=
    ⟨_, rfl, by decide +kernel, by decide +kernel, by decide +kernel, by decide +kernel,
      by cbv, by cbv, by decide +kernel⟩
  obtain ⟨m₀, made, pushed, dead, running, unexhausted, decoded, operand, outcome⟩ := computed
  have applies : (m₀.runFor 6).2.AppliesTo .getIndex ⟨0, 0⟩ :=
    ⟨.inr running, unexhausted, ⟨15, decoded⟩, 1, rfl, operand⟩
  refine ⟨m₀, made, .runFor 6 .refl, .inl (.inl pushed), dead, applies, outcome, ?_⟩
  intro halts
  obtain ⟨journal, result⟩ := halts 0
  rw [step, result] at outcome
  cases outcome

end Machine

end StackMachine
