import StackMachine.Proofs.StackEffect

namespace StackMachine

namespace Profile

variable {op o first : Opcode} {p rest : Profile} {ops : List Opcode} {n : Nat}

theorem count_cons : count ((first, n) :: rest) o = if o = first then n else count rest o := by
  by_cases same : o = first
  · simp [count, same]
  · have other : (o == first) = false := by simpa using same
    simp [count, List.lookup_cons, same, other]

theorem count_record (op o : Opcode) (p : Profile) :
    (record op p).count o = p.count o + if o = op then 1 else 0 := by
  induction p with
  | nil =>
    rw [record, count_cons]
    simp [count]
  | cons entry rest ih =>
    obtain ⟨first, n⟩ := entry
    by_cases here : first = op
    · rw [record, if_pos here, count_cons, count_cons, here]
      split <;> rfl
    · rw [record, if_neg here, count_cons, count_cons, ih]
      by_cases same : o = first
      · simp [same, here]
      · simp [same]

theorem sum_record (op : Opcode) (p : Profile) :
    ((record op p).map Prod.snd).sum = (p.map Prod.snd).sum + 1 := by
  induction p with
  | nil => rfl
  | cons entry rest ih =>
    obtain ⟨first, n⟩ := entry
    by_cases here : first = op
    · rw [record, if_pos here]
      simp only [List.map_cons, List.sum_cons]
      omega
    · rw [record, if_neg here]
      simp only [List.map_cons, List.sum_cons, ih]
      omega

theorem mem_keys_record : o ∈ (record op p).map Prod.fst ↔ o = op ∨ o ∈ p.map Prod.fst := by
  induction p with
  | nil => simp [record]
  | cons entry rest ih =>
    obtain ⟨first, n⟩ := entry
    by_cases here : first = op
    · simp [record, here]
    · rw [record, if_neg here, List.map_cons, List.mem_cons, ih]
      simp only [List.map_cons, List.mem_cons]
      tauto

structure Tallies (ops : List Opcode) (p : Profile) : Prop where
  nodup : (p.map Prod.fst).Nodup
  positive : ∀ entry ∈ p, 0 < entry.2
  counts : ∀ op, p.count op = ops.count op
  sum : (p.map Prod.snd).sum = ops.length

theorem nodup_record (nodup : (p.map Prod.fst).Nodup) : ((record op p).map Prod.fst).Nodup := by
  induction p with
  | nil => exact List.nodup_singleton op
  | cons entry rest ih =>
    obtain ⟨first, n⟩ := entry
    obtain ⟨fresh, later⟩ := List.nodup_cons.mp nodup
    by_cases here : first = op
    · rw [record, if_pos here]
      exact nodup
    · rw [record, if_neg here]
      refine List.nodup_cons.mpr ⟨?_, ih later⟩
      rw [mem_keys_record]
      exact not_or.mpr ⟨here, fresh⟩

theorem positive_record (positive : ∀ entry ∈ p, 0 < entry.2) :
    ∀ entry ∈ record op p, 0 < entry.2 := by
  induction p with
  | nil => simp [record]
  | cons entry rest ih =>
    obtain ⟨first, n⟩ := entry
    obtain ⟨here, later⟩ := List.forall_mem_cons.mp positive
    rw [record]
    split
    · exact List.forall_mem_cons.mpr ⟨Nat.succ_pos n, later⟩
    · exact List.forall_mem_cons.mpr ⟨here, ih later⟩

theorem Tallies.nil : Tallies [] [] := ⟨List.nodup_nil, nofun, fun _ => rfl, rfl⟩

theorem Tallies.record (tallies : p.Tallies ops) (op : Opcode) :
    (p.record op).Tallies (op :: ops) := by
  refine ⟨nodup_record tallies.nodup, positive_record tallies.positive, ?_, ?_⟩
  · intro o
    rw [count_record, tallies.counts, List.count_cons]
    by_cases same : o = op
    · simp [same]
    · simp [same, Ne.symm same]
  · rw [sum_record, tallies.sum]
    rfl

theorem mem_iff_count (nodup : (p.map Prod.fst).Nodup) (positive : ∀ entry ∈ p, 0 < entry.2) :
    (o, n) ∈ p ↔ n = p.count o ∧ 0 < n := by
  induction p generalizing n with
  | nil =>
    simp only [List.not_mem_nil, false_iff]
    rintro ⟨rfl, impossible⟩
    cases impossible
  | cons entry rest ih =>
    obtain ⟨first, k⟩ := entry
    obtain ⟨fresh, later⟩ := List.nodup_cons.mp nodup
    obtain ⟨here, others⟩ := List.forall_mem_cons.mp positive
    rw [List.mem_cons, ih later others, count_cons]
    by_cases same : o = first
    · subst same
      -- A count further on would mean that the operation is listed again.
      have absent : count rest o = 0 := by
        by_contra present
        have listed := (ih later others).mpr ⟨rfl, Nat.pos_of_ne_zero present⟩
        exact fresh (List.mem_map.mpr ⟨_, listed, rfl⟩)
      simp only [Prod.mk.injEq, true_and, absent, ↓reduceIte]
      omega
    · simp [same]

theorem Tallies.report (tallies : p.Tallies ops) :
    (∀ name n, (name, n) ∈ p.sorted ↔
      ∃ op : Opcode, op.mnemonic = name ∧ n = ops.count op ∧ 0 < n) ∧
    (p.sorted.map Prod.fst).Nodup ∧ (p.sorted.map Prod.snd).sum = ops.length := by
  have order : p.sorted.Perm (p.map (Prod.map Opcode.mnemonic id)) := List.mergeSort_perm _ _
  refine ⟨?_, ?_, ?_⟩
  · intro name n
    rw [order.mem_iff, List.mem_map]
    constructor
    · rintro ⟨⟨op, k⟩, listed, same⟩
      cases same
      have counted := (mem_iff_count tallies.nodup tallies.positive).mp listed
      rw [tallies.counts] at counted
      exact ⟨op, rfl, counted⟩
    · rintro ⟨op, rfl, counted⟩
      rw [← tallies.counts] at counted
      exact ⟨(op, n), (mem_iff_count tallies.nodup tallies.positive).mpr counted, rfl⟩
  · rw [(order.map Prod.fst).nodup_iff, List.map_map]
    have keys : Prod.fst ∘ Prod.map Opcode.mnemonic (id : Nat → Nat) =
        Opcode.mnemonic ∘ Prod.fst := rfl
    rw [keys, ← List.map_map]
    exact tallies.nodup.map Opcode.mnemonic_injective
  · rw [(order.map Prod.snd).sum_eq, List.map_map, ← tallies.sum]
    rfl

end Profile

theorem Heap.Evolves.built {budget : Nat} {heap heap' : Heap} (evolves : heap.Evolves heap')
    (built : Heap.Built budget heap) : Heap.Built budget heap' :=
  evolves.invariant (P := Heap.Built budget) (fun _ op built => .apply op built) built

namespace Machine

variable {m m' m₀ : Machine} {past : List (Instr × Machine)} {journal : Journal} {code : Code}
  {config : Config}

/-- How a machine has come about: `past` are the instructions that were completed, the last one
first, each with the machine that it left. An instruction that fails is none of them. -/
inductive History (m₀ : Machine) : List (Instr × Machine) → Machine → Prop where
  | fresh : History m₀ [] m₀
  | start {past : List (Instr × Machine)} {m : Machine} :
      History m₀ past m → m.phase = .ready → History m₀ past m.started
  | next {past : List (Instr × Machine)} {m m' : Machine} {i : Instr} {next : Nat} :
      History m₀ past m → m.phase = .running → m.exhausted? = none →
      m.code.decode m.ip = .ok (i, next) → cycle m = .ok true m' →
      History m₀ ((i, m') :: past) m'
  | complete {past : List (Instr × Machine)} {m m' : Machine} {i : Instr} {next : Nat} :
      History m₀ past m → m.phase = .running → m.exhausted? = none →
      m.code.decode m.ip = .ok (i, next) → cycle m = .ok false m' →
      History m₀ ((i, m') :: past) m'.complete.2
  | fail {past : List (Instr × Machine)} {m m' : Machine} {e : Fault} :
      History m₀ past m → m.phase = .running → m.exhausted? = none →
      cycle m = .error e m' → History m₀ past (m'.fail e m.ip).2
  | exhaust {past : List (Instr × Machine)} {m : Machine} {budget : Nat} :
      History m₀ past m → m.phase = .running → m.exhausted? = some budget →
      History m₀ past (m.exhaust budget).2

theorem decoded_of_cycle {more : Bool} (done : cycle m = .ok more m') :
    ∃ i next, m.code.decode m.ip = .ok (i, next) := by
  cases decoded : m.code.decode m.ip with
  | error fault => cases (Action.bind_of_error (fetch_of_error decoded)).symm.trans done
  | ok pair => exact ⟨pair.1, pair.2, rfl⟩

theorem History.slice (history : History m₀ past m) (running : m.phase = .running) (fuel : Nat) :
    ∃ past, History m₀ past (slice fuel m).2 := by
  induction fuel generalizing past m with
  | zero =>
    cases exhausted : m.exhausted? with
    | some budget =>
      rw [slice_of_exhausted exhausted]
      exact ⟨past, .exhaust history running exhausted⟩
    | none =>
      rw [slice_zero exhausted]
      exact ⟨past, history⟩
  | succ fuel ih =>
    cases exhausted : m.exhausted? with
    | some budget =>
      rw [slice_of_exhausted exhausted]
      exact ⟨past, .exhaust history running exhausted⟩
    | none =>
      cases turn : cycle m with
      | error e after =>
        simp only [Machine.slice, exhausted, turn]
        exact ⟨past, .fail history running exhausted turn⟩
      | ok more after =>
        obtain ⟨i, next, decoded⟩ := decoded_of_cycle turn
        cases more with
        | false =>
          simp only [Machine.slice, exhausted, turn]
          exact ⟨_, .complete history running exhausted decoded turn⟩
        | true =>
          rw [slice_next exhausted turn]
          exact ih (.next history running exhausted decoded turn)
            ((Keeps.of_ok turn).1.phase.trans running)

theorem Reaches.history (reached : m₀.Reaches m) : ∃ past, History m₀ past m := by
  apply Reaches.of_slices (P := fun m => ∃ past, History m₀ past m) reached ⟨[], .fresh⟩
  rintro m fuel ⟨past, history⟩
  cases phase : m.phase with
  | ready =>
    rw [runFor_ready phase]
    exact (History.start history phase).slice rfl fuel
  | running =>
    rw [runFor_running phase]
    exact history.slice phase fuel
  | halted finish =>
    simp only [Machine.runFor, phase]
    exact ⟨past, history⟩
  | destroyed =>
    simp only [Machine.runFor, phase]
    exact ⟨past, history⟩

theorem History.safe (history : History m₀ past m) (made : create journal code config = .ok m₀) :
    m.Safe code config := by
  induction history with
  | fresh => exact create_safe made
  | start _ ready ih => exact (Turn.start ready).safe ih
  | next _ _ _ _ done ih => exact (Turn.next done).safe ih
  | complete _ _ _ _ done ih => exact (Turn.complete done).safe ih
  | fail _ _ _ failed ih => exact (Turn.fail failed).safe ih
  | exhaust _ _ exhausted ih => exact (Turn.exhaust exhausted).safe ih

theorem counters_of_cycle (coherent : m.Coherent) {i : Instr} {next : Nat} {more : Bool}
    (decoded : m.code.decode m.ip = .ok (i, next)) (done : cycle m = .ok more m') :
    m'.counters =
      { instructions := m.counters.instructions + 1
        maxStackDepth := max m.counters.maxStackDepth m'.stack.depth
        maxCallDepth := max m.counters.maxCallDepth m'.calls.depth
        profile :=
          if m.config.profileOpcodes then m.counters.profile.record i.opcode
          else m.counters.profile } := by
  obtain ⟨i', next', control, after, same, result, advanced⟩ := effect_of_cycle coherent done
  cases decoded.symm.trans same
  have advances :=
    effect_advances (m := m.note (.dispatched m.ip i m.stack.depth)) coherent.stack result
  have counters : after.counters = m.counters := by rw [advances.rest]; rfl
  have config : after.config = m.config := by rw [advances.rest]; rfl
  -- The instruction itself leaves the counters; they are updated by the advance after it.
  rw [← counters, ← config]
  cases control <;> cases advanced <;> rfl

def visited (m₀ : Machine) (past : List (Instr × Machine)) : Set Machine :=
  {state | state = m₀ ∨ ∃ i, (i, state) ∈ past}

theorem visited_nil : visited m₀ [] = {m₀} := by
  ext state
  simp [visited]

theorem visited_cons (i : Instr) :
    visited m₀ ((i, m) :: past) = insert m (visited m₀ past) := by
  ext state
  simp only [visited, Set.mem_ofPred_eq, Set.mem_insert_iff, List.mem_cons, Prod.mk.injEq]
  constructor
  · rintro (first | ⟨j, ⟨_, last⟩ | older⟩)
    · exact .inr (.inl first)
    · exact .inl last
    · exact .inr (.inr ⟨j, older⟩)
  · rintro (last | first | ⟨j, older⟩)
    · exact .inr ⟨i, .inl ⟨rfl, last⟩⟩
    · exact .inl first
    · exact .inr ⟨j, .inr older⟩

/-- The number is the greatest of a measure over a history. It is not below what the measure is now,
nor above the limit. -/
structure Peak (measure : Machine → Nat) (limit : Nat) (m₀ : Machine)
    (past : List (Instr × Machine)) (m : Machine) (peak : Nat) : Prop where
  greatest : IsGreatest (measure '' visited m₀ past) peak
  current : measure m ≤ peak
  bounded : peak ≤ limit

section

variable {measure : Machine → Nat} {limit peak : Nat}

theorem Peak.fresh (bottom : measure m₀ = 0) : Peak measure limit m₀ [] m₀ 0 := by
  refine ⟨?_, Nat.le_of_eq bottom, Nat.zero_le limit⟩
  rw [visited_nil, Set.image_singleton, bottom]
  exact isGreatest_singleton

theorem Peak.completed (before : Peak measure limit m₀ past m peak) (i : Instr)
    {after : Machine} (same : measure after = measure m') (bound : measure after ≤ limit) :
    Peak measure limit m₀ ((i, m') :: past) after (max peak (measure m')) := by
  refine ⟨?_, ?_, Nat.max_le.mpr ⟨before.bounded, same ▸ bound⟩⟩
  · rw [visited_cons, Set.image_insert_eq, max_comm]
    exact before.greatest.insert (measure m')
  · rw [same]
    exact Nat.le_max_right _ _

theorem Peak.unchanged (before : Peak measure limit m₀ past m peak)
    (same : measure m' = measure m) : Peak measure limit m₀ past m' peak :=
  ⟨before.greatest, same ▸ before.current, before.bounded⟩

end

def operations (past : List (Instr × Machine)) : List Opcode := past.map fun done => done.1.opcode

structure Counted (config : Config) (m₀ : Machine) (past : List (Instr × Machine)) (m : Machine) :
    Prop where
  instructions : m.counters.instructions = past.length
  stack : Peak (·.stack.depth) config.maxStackDepth m₀ past m m.counters.maxStackDepth
  calls : Peak (·.calls.depth) config.maxCallDepth m₀ past m m.counters.maxCallDepth
  profile : if config.profileOpcodes then m.counters.profile.Tallies (operations past)
    else m.counters.profile = []

theorem create_counted (made : create journal code config = .ok m₀) :
    Counted config m₀ [] m₀ := by
  obtain ⟨_, _, _, rfl⟩ := ofParts_eq_ok made
  refine ⟨rfl, .fresh rfl, .fresh rfl, ?_⟩
  split
  · exact .nil
  · rfl

theorem Counted.unchanged (counted : Counted config m₀ past m)
    (thread : m'.toThread = m.toThread) (counters : m'.counters = m.counters) :
    Counted config m₀ past m' := by
  obtain ⟨instructions, stack, calls, profile⟩ := counted
  rw [← counters] at instructions stack calls profile
  exact ⟨instructions, stack.unchanged (by rw [thread]), calls.unchanged (by rw [thread]), profile⟩

/-- An instruction that is completed is counted, whether the machine goes on as `m'` or halts. -/
theorem Counted.completed (counted : Counted config m₀ past m) (safe : m.Safe code config)
    {i : Instr} {next : Nat} {more : Bool} {after : Machine}
    (decoded : m.code.decode m.ip = .ok (i, next)) (done : cycle m = .ok more m')
    (thread : after.toThread = m'.toThread) (counters : after.counters = m'.counters)
    (safely : after.Safe code config) : Counted config m₀ ((i, m') :: past) after := by
  have depth : after.stack.depth ≤ config.maxStackDepth := by
    rw [← safely.stackLimit]
    exact safely.thread.stack.depth_le
  have nesting : after.calls.depth ≤ config.maxCallDepth := by
    rw [← safely.callLimit]
    exact safely.thread.calls_le
  have recorded := counters.trans (counters_of_cycle safe.thread.toCoherent decoded done)
  constructor
  · rw [recorded, counted.instructions]
    rfl
  · rw [recorded]
    exact counted.stack.completed i (by rw [thread]) depth
  · rw [recorded]
    exact counted.calls.completed i (by rw [thread]) nesting
  · have profile := counted.profile
    rw [recorded, safe.config_eq]
    by_cases profiled : config.profileOpcodes
    · rw [if_pos profiled] at profile
      simp only [profiled, ↓reduceIte]
      exact profile.record i.opcode
    · rw [if_neg profiled] at profile
      simp only [profiled, Bool.false_eq_true, ↓reduceIte]
      exact profile

theorem History.counted (history : History m₀ past m) (made : create journal code config = .ok m₀) :
    Counted config m₀ past m := by
  induction history with
  | fresh => exact create_counted made
  | start _ _ ih => exact ih.unchanged rfl rfl
  | next before running unlimited decoded done ih =>
    exact ih.completed (before.safe made) decoded done rfl rfl
      ((History.next before running unlimited decoded done).safe made)
  | complete before running unlimited decoded done ih =>
    exact ih.completed (before.safe made) decoded done rfl rfl
      ((History.complete before running unlimited decoded done).safe made)
  | fail before _ _ failed ih =>
    have same := cycle_eq_error (before.safe made).thread.toCoherent failed
    rw [same]
    exact ih.unchanged rfl rfl
  | exhaust _ _ _ ih => exact ih.unchanged rfl rfl

theorem Reaches.heap_built (reached : m₀.Reaches m) (made : create journal code config = .ok m₀) :
    Heap.Built config.heapBudget m.heap := by
  obtain ⟨coherent, tidy⟩ := create_coherent made
  refine (reached.evolves coherent tidy).2.built ?_
  obtain ⟨_, _, _, rfl⟩ := ofParts_eq_ok made
  exact .empty

/-- The statistics of a machine that was created and run. It has a history, and whatever history
led to it, the counters are the number of its instructions, the greatest depths between them and
the number of times that each operation occurs; the heap figures are those of the live objects. -/
theorem statistics_agree_with_history (made : create journal code config = .ok m₀)
    (reached : m₀.Reaches m) :
    (∃ past, History m₀ past m) ∧
    (∀ past, History m₀ past m →
      m.stats.counters.instructions = past.length ∧
      IsGreatest ((·.stack.depth) '' visited m₀ past) m.stats.counters.maxStackDepth ∧
      IsGreatest ((·.calls.depth) '' visited m₀ past) m.stats.counters.maxCallDepth ∧
      (config.profileOpcodes = true →
        (∀ name n, (name, n) ∈ m.stats.counters.profile.sorted ↔
          ∃ op : Opcode, op.mnemonic = name ∧ n = (operations past).count op ∧ 0 < n))) ∧
    (config.profileOpcodes = true →
      (m.stats.counters.profile.sorted.map Prod.fst).Nodup ∧
      (m.stats.counters.profile.sorted.map Prod.snd).sum = m.stats.counters.instructions) ∧
    (config.profileOpcodes = false → m.stats.counters.profile.sorted = []) ∧
    (m.stack.depth ≤ m.stats.counters.maxStackDepth ∧
      m.stats.counters.maxStackDepth ≤ config.maxStackDepth) ∧
    (m.calls.depth ≤ m.stats.counters.maxCallDepth ∧
      m.stats.counters.maxCallDepth ≤ config.maxCallDepth) ∧
    m.stats.heapObjectsLive = m.heap.objects.length ∧
    m.stats.heapBytesLive = (m.heap.objects.map Object.footprint).sum := by
  obtain ⟨past, history⟩ := reached.history
  obtain ⟨instructions, stack, calls, profile⟩ := history.counted made
  have accounts := (reached.heap_built made).balanced.toCounted
  refine ⟨⟨past, history⟩, ?_, ?_, ?_, ⟨stack.current, stack.bounded⟩,
    ⟨calls.current, calls.bounded⟩, accounts.live, accounts.bytes⟩
  · intro past history
    obtain ⟨instructions, stack, calls, profile⟩ := history.counted made
    refine ⟨instructions, stack.greatest, calls.greatest, ?_⟩
    intro profiled
    rw [if_pos profiled] at profile
    exact profile.report.1
  · intro profiled
    rw [if_pos profiled] at profile
    obtain ⟨_, names, sum⟩ := profile.report
    refine ⟨names, sum.trans ?_⟩
    rw [operations, List.length_map]
    exact instructions.symm
  · intro unprofiled
    rw [if_neg (by simp [unprofiled])] at profile
    simp [stats, profile, Profile.sorted]

def counting : Machine :=
  let m := small [.push 4, .push 5, .arith .mul, .arith .mul]
  { m with config := { m.config with profileOpcodes := true } }

def atUnderflow : Machine := (counting.runFor 9).2

theorem failed_product_agrees_with_history :
    create (.empty none) counting.code counting.config = .ok counting ∧
    counting.Reaches atUnderflow ∧
    atUnderflow.phase = .halted (.failed .stackUnderflow 11) ∧
    ∃ past, History counting past atUnderflow ∧ past.length = 3 ∧
      IsGreatest ((·.stack.depth) '' visited counting past) 2 ∧
      (operations past).count .push = 2 ∧
      (atUnderflow.stats.counters.profile.sorted.map Prod.snd).sum = 3 := by
  have made : create (.empty none) counting.code counting.config = .ok counting := rfl
  have reached : counting.Reaches atUnderflow := .runFor 9 .refl
  obtain ⟨⟨past, history⟩, exact, profiled, _⟩ := statistics_agree_with_history made reached
  obtain ⟨instructions, stack, _, profile⟩ := exact past history
  have three : atUnderflow.stats.counters.instructions = 3 := by decide +kernel
  have two : atUnderflow.stats.counters.maxStackDepth = 2 := by decide +kernel
  have listed : ("PUSH", 2) ∈ atUnderflow.stats.counters.profile.sorted :=
    (List.mergeSort_perm _ _).mem_iff.mpr (by decide +kernel)
  obtain ⟨op, name, count, _⟩ := (profile rfl "PUSH" 2).mp listed
  have push : op = .push := Opcode.mnemonic_injective name
  subst push
  exact ⟨made, reached, by decide +kernel, past, history, instructions.symm.trans three,
    two ▸ stack, count.symm, (profiled rfl).2.trans three⟩

end Machine

end StackMachine
