import StackMachine.Host.Session
import StackMachine.Proofs.OperandStack
import StackMachine.Proofs.Ordering

namespace StackMachine.Host

open Value (ExactlyOne)

variable {s : Option Session} {index : Int} {i n : Nat} {v : Value}

theorem resolveIndex?_eq_some :
    resolveIndex? n index = some i ↔ i < n ∧ (index = i ∨ index = i - n) := by
  unfold resolveIndex?
  split <;> split <;> simp only [Option.some.injEq, reduceCtorEq, false_iff] <;> omega

theorem resolveIndex?_eq_none (outside : ¬ (-(n : Int) ≤ index ∧ index < n)) :
    resolveIndex? n index = none := by
  rw [Option.eq_none_iff_forall_ne_some]
  intro i found
  have named := resolveIndex?_eq_some.mp found
  omega

section Words

/-- The position of an entry in machine words, which wrap around. -/
def wordIndex? (depth : UInt64) (index : Int32) : Option UInt64 :=
  if 0 ≤ index then
    let position := index.toInt64.toUInt64
    if position < depth then some position else none
  else
    let offset := index.abs.toUInt32.toUInt64
    if offset ≤ depth then some (depth - offset) else none

theorem toNat_extended {index : Int32} (below : 0 ≤ index) :
    index.toInt64.toUInt64.toNat = index.toInt.toNat := by
  have wide : 0 ≤ index.toInt64 := by
    rw [Int64.le_iff_toInt_le, Int32.toInt_toInt64]
    exact Int32.le_iff_toInt_le.mp below
  rw [Int64.toNat_toUInt64_of_le wide, Int32.toNatClampNeg_toInt64]
  rfl

theorem toNat_magnitude (index : Int32) : index.abs.toUInt32.toNat = index.toInt.natAbs := by
  have word : index.abs.toUInt32.toNat = index.toBitVec.abs.toNat := rfl
  have value : index.toInt = index.toBitVec.toInt := rfl
  have bound := index.toBitVec.isLt
  rw [word, value, BitVec.toNat_abs, BitVec.toInt_eq_msb_cond]
  split <;> omega

theorem wordIndex?_eq (depth : UInt64) (index : Int32) :
    (wordIndex? depth index).map UInt64.toNat = resolveIndex? depth.toNat index.toInt := by
  have order : 0 ≤ index ↔ 0 ≤ index.toInt := Int32.le_iff_toInt_le
  unfold wordIndex? resolveIndex?
  by_cases below : 0 ≤ index
  · have position := toNat_extended below
    rw [if_pos below, if_pos (order.mp below)]
    simp only [UInt64.lt_iff_toNat_lt, position]
    split
    · rw [Option.map_some, position]
    · rfl
  · have offset : index.abs.toUInt32.toUInt64.toNat = index.toInt.natAbs := by
      rw [UInt32.toNat_toUInt64, toNat_magnitude]
    rw [if_neg below, if_neg (mt order.mpr below)]
    simp only [UInt64.le_iff_toNat_le, offset]
    split
    · rename_i inside
      -- The guard keeps the difference from wrapping around.
      rw [Option.map_some, UInt64.toNat_sub_of_le, offset]
      rw [UInt64.le_iff_toNat_le, offset]
      exact inside
    · rfl

end Words

structure Shows (s : Option Session) (index : Int32) (v : Value) : Prop where
  null : isNull s index.toInt = true ↔ v = .null
  ref : isRef s index.toInt = true ↔ ∃ h, v = .ref h
  int : ∀ n out, v = .int n → peekInt s index.toInt (some out) = (true, some n)
  noInt : ∀ out, v.isInt = false → peekInt s index.toInt (some out) = (false, some out)
  promoted : ∀ n out, v = .int n →
    peekFloat s index.toInt (some out) = (true, some (.ofInt64 n))
  float : ∀ x out, v = .float x → peekFloat s index.toInt (some out) = (true, some x)
  noFloat : ∀ out, v.isNumeric = false → peekFloat s index.toInt (some out) = (false, some out)
  one : ∀ out, ExactlyOne (isNull s index.toInt = true) (isRef s index.toInt = true)
    ((peekFloat s index.toInt (some out)).1 = true)

structure ShowsNothing (s : Option Session) (index : Int32) : Prop where
  null : isNull s index.toInt = false
  ref : isRef s index.toInt = false
  int : ∀ out, peekInt s index.toInt out = (false, out)
  float : ∀ out, peekFloat s index.toInt out = (false, out)

structure Agree (s : Option Session) (a b : Int32) : Prop where
  null : isNull s a.toInt = isNull s b.toInt
  ref : isRef s a.toInt = isRef s b.toInt
  int : ∀ out, peekInt s a.toInt out = peekInt s b.toInt out
  float : ∀ out, peekFloat s a.toInt out = peekFloat s b.toInt out

section Inspectors

variable {index : Int32}

theorem shows_of_valueAt? (found : valueAt? s index.toInt = some v) : Shows s index v := by
  have null : isNull s index.toInt = v.isNull := by rw [isNull, found, Option.any_some]
  have ref : isRef s index.toInt = v.isRef := by rw [isRef, found, Option.any_some]
  have int (out : Int64) : peekInt s index.toInt (some out) = deliver v.toInt? (some out) := by
    rw [peekInt, peekInt?, found, Option.bind_some]
  have float (out : Binary64) :
      peekFloat s index.toInt (some out) = deliver v.toFloat? (some out) := by
    rw [peekFloat, peekFloat?, found, Option.bind_some]
  constructor
  · rw [null]
    cases v <;> simp [Value.isNull]
  · rw [ref]
    cases v <;> simp [Value.isRef]
  · rintro n out rfl
    exact int out
  · intro out other
    rw [int]
    cases v with
    | int => cases other
    | float | ref | null => rfl
  · rintro n out rfl
    exact float out
  · rintro x out rfl
    exact float out
  · intro out other
    rw [float]
    cases v with
    | int | float => cases other
    | ref | null => rfl
  · intro out
    rw [null, ref, float]
    cases v <;> simp [ExactlyOne, Value.isNull, Value.isRef, Value.toFloat?, deliver]

theorem showsNothing_of_valueAt? (missing : valueAt? s index.toInt = none) :
    ShowsNothing s index := by
  constructor
  · rw [isNull, missing, Option.any_none]
  · rw [isRef, missing, Option.any_none]
  · intro out
    rw [peekInt, peekInt?, missing, Option.bind_none]
    rfl
  · intro out
    rw [peekFloat, peekFloat?, missing, Option.bind_none]
    rfl

theorem agree_of_valueAt? {a b : Int32} (same : valueAt? s a.toInt = valueAt? s b.toInt) :
    Agree s a b := by
  constructor
  · rw [isNull, isNull, same]
  · rw [isRef, isRef, same]
  · intro out
    rw [peekInt, peekInt, peekInt?, peekInt?, same]
  · intro out
    rw [peekFloat, peekFloat, peekFloat?, peekFloat?, same]

theorem valueAt?_of_named (entry : (values s)[i]? = some v)
    (named : index.toInt = i ∨ index.toInt = i - depth s) : valueAt? s index.toInt = some v := by
  have inside : i < depth s := (Array.getElem?_eq_some_iff.mp entry).1
  rw [valueAt?, resolveIndex?_eq_some.mpr ⟨inside, named⟩, Option.bind_some, entry]

/-- All entries of a stack that is not too deep are within reach from both ends. -/
theorem exists_two_indices (shallow : n ≤ 2 ^ 31) (inside : i < n) :
    ∃ bottom top : Int32, bottom.toInt = i ∧ top.toInt = i - n ∧
      ∀ index : Int32, resolveIndex? n index.toInt = some i ↔ index = bottom ∨ index = top := by
  have low : (Int32.ofInt i).toInt = i := Int32.toInt_ofInt_of_le (by omega) (by omega)
  have high : (Int32.ofInt (i - n)).toInt = i - n := Int32.toInt_ofInt_of_le (by omega) (by omega)
  refine ⟨.ofInt i, .ofInt (i - n), low, high, ?_⟩
  intro index
  rw [resolveIndex?_eq_some, ← Int32.toInt_inj, ← Int32.toInt_inj, low, high]
  exact and_iff_right inside

theorem valueAt?_top {session : Session} (found : session.machine.top? = some v) :
    valueAt? (some session) (-1 : Int32).toInt = some v := by
  have operand : session.machine.stack.operand 0 = .ok v := by
    rw [Machine.top?, OperandStack.top?, OperandStack.peek_eq] at found
    cases taken : session.machine.stack.operand 0 with
    | error e =>
      rw [taken] at found
      cases found
    | ok w =>
      rw [taken] at found
      cases found
      rfl
  have above := OperandStack.lt_available_of_operand operand
  have entry := OperandStack.operand_eq_ok operand
  have inside : 0 < session.machine.stack.depth := by
    unfold OperandStack.available at above
    omega
  have whole : depth (some session) = session.machine.stack.depth := rfl
  have last : (-1 : Int32).toInt = -1 := by decide
  refine valueAt?_of_named entry (.inr ?_)
  rw [whole, last]
  omega

end Inspectors

/-- A host reads every entry of the stack and nothing else. An index names the entry that lies so
far from the bottom, or from the top if it is negative, and no index that names none shows anything
or touches the host's variable. The position comes out the same in machine words, and it is one of
the stack. -/
theorem inspection_shows_each_entry (s : Option Session) :
    (∀ (index : Int32) (i : Nat) (v : Value), (values s)[i]? = some v →
      index.toInt = i ∨ index.toInt = i - depth s → Shows s index v) ∧
    (∀ index : Int32, ¬ (-(depth s : Int) ≤ index.toInt ∧ index.toInt < depth s) →
      ShowsNothing s index) ∧
    (depth s ≤ 2 ^ 31 → ∀ i < depth s, ∃ bottom top : Int32,
      bottom.toInt = i ∧ top.toInt = i - depth s ∧
      (∀ index : Int32, resolveIndex? (depth s) index.toInt = some i ↔
        index = bottom ∨ index = top) ∧ Agree s bottom top) ∧
    (∀ session v, s = some session → session.machine.top? = some v → Shows s (-1) v) ∧
    (∀ (index : Int32) (i : Nat), resolveIndex? (depth s) index.toInt = some i →
      i < (values s).size) ∧
    ∀ (n : UInt64) (index : Int32),
      (wordIndex? n index).map UInt64.toNat = resolveIndex? n.toNat index.toInt := by
  refine ⟨?_, ?_, ?_, ?_, ?_, wordIndex?_eq⟩
  · intro index i v entry named
    exact shows_of_valueAt? (valueAt?_of_named entry named)
  · intro index outside
    apply showsNothing_of_valueAt?
    rw [valueAt?, resolveIndex?_eq_none outside, Option.bind_none]
  · intro shallow i inside
    obtain ⟨bottom, top, low, high, only⟩ := exists_two_indices shallow inside
    refine ⟨bottom, top, low, high, only, agree_of_valueAt? ?_⟩
    rw [valueAt?, valueAt?, (only bottom).mpr (.inl rfl), (only top).mpr (.inr rfl)]
  · rintro session v rfl found
    exact shows_of_valueAt? (valueAt?_top found)
  · intro index i resolved
    exact (resolveIndex?_eq_some.mp resolved).1

def ended (program : List Instr) : Option Session :=
  (Session.create? (some (.encode program)) .standard).map fun s => (s.run 9).2

/-- A program that halts in a call, with both its values under the floor. -/
def inCall : Option Session := ended [.push 42, .pushNull, .call 12 0, .halt]

theorem values_under_floor_are_shown :
    (inCall.bind fun session => session.machine.top?) = none ∧
    Shows inCall 0 (.int 42) ∧ Shows inCall (-1) .null ∧ ShowsNothing inCall Int32.minValue ∧
    (∃ bottom top, bottom ≠ top ∧ Agree inCall bottom top) ∧
    Shows (ended [.push 42]) (-1) (.int 42) := by
  have stack : values inCall = #[.int 42, .null] := by decide +kernel
  have entries : depth inCall = 2 := congrArg Array.size stack
  have pushed : ∃ session, ended [.push 42] = some session ∧
      session.machine.top? = some (.int 42) := ⟨_, rfl, by decide +kernel⟩
  obtain ⟨shows, nothing, both, _⟩ := inspection_shows_each_entry inCall
  obtain ⟨_, _, _, top, _⟩ := inspection_shows_each_entry (ended [.push 42])
  rw [entries] at shows nothing both
  rw [stack] at shows
  obtain ⟨bottom, other, low, high, _, agree⟩ := both (by decide) 1 (by decide)
  have differ : bottom ≠ other := by
    rw [← Int32.toInt_inj.ne, low, high]
    decide
  obtain ⟨session, made, found⟩ := pushed
  refine ⟨by decide +kernel, shows 0 0 _ rfl (.inl rfl), shows (-1) 1 _ rfl (.inr (by decide)),
    nothing _ (by decide), ⟨bottom, other, differ, agree⟩, top session _ made found⟩

end StackMachine.Host
