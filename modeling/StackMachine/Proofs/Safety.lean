import StackMachine.Proofs.Run

namespace StackMachine

theorem Config.localsPerFrame_le {config : Config} (checked : config.check = .ok ()) :
    config.localsPerFrame ≤ Config.maxLocals := (Config.check_eq_ok_iff.mp checked).2.2

/-- What the frame at position `i` of a call stack is like. Every frame but the root returns behind
a call in the code. -/
structure Frame.Sound (code : Code) (window i : Nat) (frame : Frame) : Prop where
  window_eq : frame.window = window
  root_base : i = 0 → frame.base = 0
  returns : 0 < i → ∃ offset target argc,
    code.decode offset = .ok (.call target argc, offset + 6) ∧ offset + 6 ≤ code.size ∧
      frame.returnIp = offset + 6

namespace Thread

structure Sound (code : Code) (t : Thread) : Prop extends t.Coherent where
  floor_eq : t.stack.floor = t.calls.base
  calls_le : t.calls.depth ≤ t.calls.maxDepth
  frames : ∀ (i : Nat) (frame : Frame), t.calls.frames[i]? = some frame →
    frame.Sound code t.calls.localsPerFrame i

variable {code : Code} {t t' : Thread}

theorem Sound.assigned (sound : t.Sound code) {frame : Frame} {index : Nat} {v : Value}
    (current : t.calls.current? = some frame) (above : 0 < t.stack.available) :
    (t.assigned frame index v).Sound code := by
  have rooted := sound.rooted
  refine ⟨sound.toCoherent.assigned current above, ?_, ?_, ?_⟩
  · have base := sound.floor_eq
    rw [CallStack.base_of_current current] at base
    simpa [Thread.assigned, CallStack.base, CallStack.current?] using base
  · have depth := sound.calls_le
    simp only [Thread.assigned, CallStack.depth, Array.size_push, Array.size_pop] at depth ⊢
    omega
  · intro i newFrame found
    have same := CallStack.frames_of_current current
    simp only [Thread.assigned, Array.getElem?_push] at found
    split at found
    · rename_i last
      have old : t.calls.frames[i]? = some frame := by
        rw [same, Array.getElem?_push, if_pos last]
      have before := sound.frames i frame old
      cases found
      have kept : (frame.locals.setIfInBounds index v).size = frame.locals.size :=
        Array.size_setIfInBounds
      exact ⟨kept.trans before.window_eq, before.root_base, before.returns⟩
    · rename_i older
      have old : t.calls.frames[i]? = some newFrame := by
        rw [same, Array.getElem?_push, if_neg older]
        exact found
      exact sound.frames i newFrame old

theorem Sound.entered (sound : t.Sound code) {returnIp argc : Nat}
    (checked : t.checkEnter argc = .ok ())
    (returns : ∃ offset target count, code.decode offset = .ok (.call target count, offset + 6) ∧
      offset + 6 ≤ code.size ∧ returnIp = offset + 6) :
    (t.entered returnIp argc).Sound code := by
  obtain ⟨shallow, window, above⟩ := checkEnter_eq_ok checked
  have rooted := sound.rooted
  refine ⟨sound.toCoherent.entered above, ?_, ?_, ?_⟩
  · simp [Thread.entered, CallStack.base, CallStack.current?, newFrame]
  · simp only [Thread.entered, CallStack.depth, Array.size_push] at shallow ⊢
    omega
  · intro i frame found
    simp only [Thread.entered, Array.getElem?_push] at found
    split at found
    · cases found
      refine ⟨?_, ?_, fun _ => returns⟩
      · unfold OperandStack.available OperandStack.depth at above
        simp only [Frame.window, newFrame, Thread.entered, Array.size_append, Array.size_extract,
          Array.size_replicate, OperandStack.depth]
        omega
      · omega
    · exact sound.frames i frame found

theorem Sound.departed (sound : t.Sound code) {frame : Frame} {count : Nat}
    (checked : t.checkLeave count = .ok frame) : (t.departed frame count).Sound code := by
  have depth := sound.calls_le
  refine ⟨sound.toCoherent.departed checked, rfl, ?_, ?_⟩
  · simp only [Thread.departed, CallStack.popped, CallStack.depth, Array.size_pop] at depth ⊢
    omega
  · intro i older found
    simp only [Thread.departed, CallStack.popped, Array.getElem?_pop] at found
    split at found
    · exact sound.frames i older found
    · cases found

theorem Moves.sound {i : Instr} {offset next : Nat} (moves : Moves next i t t')
    (decoded : code.decode offset = .ok (i, next)) (sound : t.Sound code) : t'.Sound code := by
  cases moves with
  | replace above room =>
    exact ⟨sound.toCoherent.replace above room, sound.floor_eq, sound.calls_le, sound.frames⟩
  | assign current above => exact sound.assigned current above
  | enter checked =>
    obtain ⟨behind, inside⟩ := Code.decode_next decoded
    have six : next = offset + 6 := behind
    rw [six] at decoded inside
    exact sound.entered checked ⟨offset, _, _, decoded, inside, six⟩
  | leave checked => exact sound.departed checked

theorem Moves.limits {i : Instr} {next : Nat} (moves : Moves next i t t') :
    t'.stack.maxDepth = t.stack.maxDepth ∧ t'.calls.maxDepth = t.calls.maxDepth ∧
      t'.calls.localsPerFrame = t.calls.localsPerFrame := by
  cases moves <;> exact ⟨rfl, rfl, rfl⟩

theorem Sound.returnIp_le (sound : t.Sound code) {frame : Frame}
    (current : t.calls.current? = some frame) (nested : 1 < t.calls.frames.size) :
    frame.returnIp ≤ code.size := by
  rw [CallStack.current?, Array.back?_eq_getElem?] at current
  have above : 0 < t.calls.frames.size - 1 := by omega
  obtain ⟨offset, _, _, _, inside, same⟩ := (sound.frames _ frame current).returns above
  rw [same]
  exact inside

end Thread

namespace Machine

variable {m m' : Machine} {code : Code} {config : Config}

/-- What holds of a machine that was created with `code` and `config`, as long as it is not
destroyed. -/
structure Safe (code : Code) (config : Config) (m : Machine) : Prop where
  code_eq : m.code = code
  config_eq : m.config = config
  stackLimit : m.stack.maxDepth = config.maxStackDepth
  callLimit : m.calls.maxDepth = config.maxCallDepth
  window : m.calls.localsPerFrame = config.localsPerFrame
  window_le : config.localsPerFrame ≤ Config.maxLocals
  thread : m.toThread.Sound code
  ip_le : m.ip ≤ code.size
  ip_lt : m.phase = .ready ∨ m.phase = .running → m.ip < code.size

theorem Safe.completed {i : Instr} {next : Nat} {more : Bool} (safe : m.Safe code config)
    (completes : Completes i next m more m') {phase : Phase} {journal : Journal}
    (live : phase = .ready ∨ phase = .running → more = true) :
    ({ m' with phase := phase, journal := journal } : Machine).Safe code config := by
  obtain ⟨decoded, thread, sameCode, sameConfig, _, landing, more_lt⟩ := completes
  obtain ⟨stackLimit, callLimit, window⟩ := thread.limits
  rw [safe.code_eq] at decoded sameCode landing more_lt
  have landed : m'.ip ≤ code.size := by
    rcases landing with behind | inside | ⟨frame, current, nested, back⟩
    · rw [behind]
      exact (Code.decode_next decoded).2
    · exact Nat.le_of_lt inside
    · rw [back]
      exact safe.thread.returnIp_le current nested
  exact
    { code_eq := sameCode
      config_eq := sameConfig.trans safe.config_eq
      stackLimit := stackLimit.trans safe.stackLimit
      callLimit := callLimit.trans safe.callLimit
      window := window.trans safe.window
      window_le := safe.window_le
      thread := thread.sound decoded safe.thread
      ip_le := landed
      ip_lt := fun phases => more_lt (live phases) }

theorem Safe.halted (safe : m.Safe code config) (finish : Finish) (journal : Journal) :
    ({ m with phase := .halted finish, journal := journal } : Machine).Safe code config :=
  { safe with ip_lt := by rintro (phase | phase) <;> cases phase }

theorem Turn.safe (turn : Turn m m') (safe : m.Safe code config) : m'.Safe code config := by
  have coherent : m.Coherent := safe.thread.toCoherent
  cases turn with
  | start ready => exact { safe with ip_lt := fun _ => safe.ip_lt (.inl ready) }
  | exhaust _ => exact safe.halted _ _
  | next done =>
    obtain ⟨_, _, completes⟩ := cycle_eq_ok coherent done
    exact safe.completed completes fun _ => rfl
  | complete done =>
    obtain ⟨_, _, completes⟩ := cycle_eq_ok coherent done
    apply safe.completed completes
    rintro (phase | phase) <;> cases phase
  | fail failed =>
    have same := cycle_eq_error coherent failed
    rw [same]
    exact safe.halted _ _

theorem create_safe {journal : Journal} (made : create journal code config = .ok m) :
    m.Safe code config := by
  obtain ⟨nonempty, checked, _, same⟩ := ofParts_eq_ok made
  subst same
  have root : ∀ (i : Nat) (frame : Frame),
      (CallStack.root config.maxCallDepth config.localsPerFrame).frames[i]? = some frame →
        frame.Sound code config.localsPerFrame i := by
    intro i frame found
    obtain ⟨inside, rfl⟩ := Array.getElem?_eq_some_iff.mp found
    have first : i = 0 := by
      simp [CallStack.root] at inside
      exact inside
    subst first
    refine ⟨?_, fun _ => rfl, nofun⟩
    simp [CallStack.root, Frame.blank, Frame.window]
  have sound : Thread.Sound code ⟨.empty config.maxStackDepth,
      .root config.maxCallDepth config.localsPerFrame⟩ :=
    { stack := ⟨Nat.le_refl 0, Nat.zero_le _⟩
      rooted := Nat.zero_lt_one
      ascending := List.pairwise_singleton _ _
      base_le := Nat.le_refl 0
      floor_eq := rfl
      calls_le := Nat.zero_le _
      frames := root }
  exact
    { code_eq := rfl
      config_eq := rfl
      stackLimit := rfl
      callLimit := rfl
      window := rfl
      window_le := Config.localsPerFrame_le checked
      thread := sound
      ip_le := Nat.zero_le _
      ip_lt := fun _ => nonempty }

theorem Reaches.safe {journal : Journal} {m₀ : Machine} (reached : m₀.Reaches m)
    (made : create journal code config = .ok m₀) : m.Safe code config :=
  reached.invariant (create_safe made) fun safe turn => turn.safe safe

theorem Safe.fetch_inside (safe : m.Safe code config)
    (live : m.phase = .ready ∨ m.phase = .running) (position size : Nat) :
    fetch m ≠ .error (.offsetOutOfRange position size) m' := by
  intro failed
  have inside := safe.ip_lt live
  rw [← safe.code_eq] at inside
  cases decoded : m.code.decode m.ip with
  | ok pair =>
    rw [fetch_of_decode decoded] at failed
    cases failed
  | error fault =>
    rw [fetch_of_error decoded] at failed
    cases failed
    exact Code.decode_inside inside position size decoded

theorem Safe.exec_ret_inside (safe : m.Safe code config) {count : UInt8} {next : Nat}
    {control : Control} (done : exec (.ret count) next m = .ok control m') :
    ∃ target, control = .jump target ∧ target ≤ code.size := by
  rw [exec_ret safe.thread.toCoherent] at done
  obtain ⟨frame, checked, last⟩ := Action.map_eq_ok (Action.settle_eq_ok done)
  obtain ⟨nested, _, current⟩ := Thread.checkLeave_eq_ok checked
  cases last
  exact ⟨frame.returnIp, rfl, safe.thread.returnIp_le current nested⟩

/-- The frames, the floor, the depths, the locals, the return addresses and the instruction pointer
of every state that a created machine gets into. No fetch is outside the code, and no return goes
further than to its end. -/
theorem reached_machine_is_safe {journal : Journal} {m₀ : Machine}
    (made : create journal code config = .ok m₀) (reached : m₀.Reaches m) :
    (m.code = code ∧ m.config = config) ∧
    (∃ root, m.calls.frames[0]? = some root ∧ root.base = 0) ∧
    m.calls.frames.toList.Pairwise (·.base ≤ ·.base) ∧
    (∃ current, m.calls.current? = some current ∧ m.stack.floor = current.base) ∧
    (m.stack.floor ≤ m.stack.depth ∧ m.stack.depth ≤ config.maxStackDepth) ∧
    m.calls.depth ≤ config.maxCallDepth ∧
    (config.localsPerFrame ≤ 256 ∧
      ∀ frame ∈ m.calls.frames, frame.locals.size = config.localsPerFrame) ∧
    (∀ (i : Nat) (frame : Frame), 0 < i → m.calls.frames[i]? = some frame →
      ∃ offset target argc, code.decode offset = .ok (.call target argc, offset + 6) ∧
        offset + 6 ≤ code.size ∧ frame.returnIp = offset + 6) ∧
    ((m.phase = .ready ∨ m.phase = .running → m.ip < code.size) ∧ m.ip ≤ code.size) ∧
    (m.phase = .ready ∨ m.phase = .running →
      ∀ position size m', fetch m ≠ .error (.offsetOutOfRange position size) m') ∧
    (∀ count next control m', exec (.ret count) next m = .ok control m' →
      ∃ target, control = .jump target ∧ target ≤ code.size) := by
  have safe := reached.safe made
  have sound := safe.thread
  obtain ⟨current, found⟩ := CallStack.exists_current sound.rooted
  refine ⟨⟨safe.code_eq, safe.config_eq⟩, ?_, sound.ascending, ⟨current, found, ?_⟩,
    ⟨sound.stack.floor_le, ?_⟩, ?_, ⟨safe.window_le, ?_⟩, ?_, ⟨safe.ip_lt, safe.ip_le⟩, ?_, ?_⟩
  · have first := Array.getElem?_eq_getElem sound.rooted
    exact ⟨_, first, (sound.frames 0 _ first).root_base rfl⟩
  · rw [sound.floor_eq, CallStack.base_of_current found]
  · rw [← safe.stackLimit]
    exact sound.stack.depth_le
  · rw [← safe.callLimit]
    exact sound.calls_le
  · intro frame member
    obtain ⟨i, here⟩ := Array.mem_iff_getElem?.mp member
    rw [← safe.window]
    exact (sound.frames i frame here).window_eq
  · intro i frame nested here
    exact (sound.frames i frame here).returns nested
  · intro live position size m'
    exact safe.fetch_inside live position size
  · intro count next control m' done
    exact safe.exec_ret_inside done

theorem endless_recursion_is_safe :
    ∃ m₀ m, create (.empty none) (.encode [.call 0 0]) .standard = .ok m₀ ∧ m₀.Reaches m ∧
      m.calls.depth = 3 ∧ m.phase = .running ∧ m.ip < 6 ∧
      (∃ current, m.calls.current? = some current ∧ m.stack.floor = current.base) ∧
      ∀ position size m', fetch m ≠ .error (.offsetOutOfRange position size) m' := by
  have made : create (.empty none) (.encode [.call 0 0]) .standard = .ok _ := rfl
  obtain ⟨_, _, _, floor, _, _, _, _, ip, fetches, _⟩ :=
    reached_machine_is_safe made (.runFor 3 .refl)
  refine ⟨_, _, made, .runFor 3 .refl, by decide +kernel, by decide +kernel, ?_, floor, ?_⟩
  · exact ip.1 (.inr (by decide +kernel))
  · exact fetches (.inr (by decide +kernel))

end Machine

end StackMachine
