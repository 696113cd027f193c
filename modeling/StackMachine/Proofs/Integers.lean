import StackMachine.Proofs.StackEffect

namespace StackMachine

section

variable {a b c : Int64} {z : Int}

/-- The word is the only one that is congruent to the integer. -/
def Reduces (z : Int) (c : Int64) : Prop := ∀ d : Int64, d.toInt ≡ z [ZMOD 2 ^ 64] ↔ d = c

theorem toInt_inj_of_modEq (same : a.toInt ≡ b.toInt [ZMOD 2 ^ 64]) : a = b := by
  have bounds := And.intro (a.le_toInt) (a.toInt_lt)
  have others := And.intro (b.le_toInt) (b.toInt_lt)
  unfold Int.ModEq at same
  apply Int64.toInt_inj.mp
  omega

theorem reduces_of_modEq (congruent : c.toInt ≡ z [ZMOD 2 ^ 64]) : Reduces z c := by
  intro d
  constructor
  · intro other
    exact toInt_inj_of_modEq (other.trans congruent.symm)
  · rintro rfl
    exact congruent

theorem bmod_modEq (z : Int) : z.bmod (2 ^ 64) ≡ z [ZMOD 2 ^ 64] := Int.bmod_emod

theorem reduces_of_bmod (same : c.toInt = z.bmod (2 ^ 64)) : Reduces z c := by
  apply reduces_of_modEq
  rw [same]
  exact bmod_modEq z

structure Divides (a b quotient remainder : Int64) : Prop where
  quotient_eq : Reduces (a.toInt.tdiv b.toInt) quotient
  remainder_eq : remainder.toInt = a.toInt.tmod b.toInt
  remainder_lt : |remainder.toInt| < |b.toInt|
  sign_eq : remainder.toInt = 0 ∨ remainder.toInt.sign = a.toInt.sign
  restores : quotient.toInt * b.toInt + remainder.toInt ≡ a.toInt [ZMOD 2 ^ 64]

theorem divides_of_ne_zero (nonzero : b ≠ 0) : Divides a b (a / b) (a % b) := by
  have quotient : (a / b).toInt ≡ a.toInt.tdiv b.toInt [ZMOD 2 ^ 64] := by
    rw [Int64.toInt_div]
    exact bmod_modEq _
  have remainder := Int64.toInt_mod a b
  have divisor : b.toInt ≠ 0 := by
    intro zero
    exact nonzero (Int64.toInt_inj.mp zero)
  refine ⟨reduces_of_modEq quotient, remainder, ?_, ?_, ?_⟩
  · have bound : a.toInt.natAbs % b.toInt.natAbs < b.toInt.natAbs :=
      Nat.mod_lt _ (Int.natAbs_pos.mpr divisor)
    rw [remainder, Int.abs_eq_natAbs, Int.abs_eq_natAbs, Int.natAbs_tmod]
    exact_mod_cast bound
  · have signs := Int.sign_tmod a.toInt b.toInt
    rw [remainder]
    split at signs
    · exact .inl (Int.sign_eq_zero_iff_zero.mp signs)
    · exact .inr signs
  · -- Only the quotient is reduced; the remainder of the words is that of the integers.
    rw [remainder]
    calc (a / b).toInt * b.toInt + a.toInt.tmod b.toInt
        ≡ a.toInt.tdiv b.toInt * b.toInt + a.toInt.tmod b.toInt [ZMOD 2 ^ 64] :=
          (quotient.mul_right _).add_right _
      _ = a.toInt := Int.tdiv_mul_add_tmod _ _

def shiftAmount (b : Int64) : Nat := (b.toInt % 64).toNat

theorem shiftAmount_eq (b : Int64) : shiftAmount b = b.toBitVec.toNat % 64 := by
  have signed := BitVec.toInt_eq_toNat_cond b.toBitVec
  rw [Int64.toInt_toBitVec] at signed
  unfold shiftAmount
  split at signed <;> omega

theorem toNat_masked (b : Int64) : ((b &&& 63).toBitVec.smod 64).toNat = shiftAmount b := by
  have masked : (b &&& 63).toBitVec.toNat = b.toBitVec.toNat % 64 := by
    rw [Int64.toBitVec_and, BitVec.toNat_and]
    exact Nat.and_two_pow_sub_one_eq_mod _ 6
  -- The shift reduces the masked amount once more, as a signed word; it is small already.
  have small : (b &&& 63).toBitVec.msb = false := by
    rw [BitVec.msb_eq_false_iff_two_mul_lt, masked]
    omega
  have positive : (64 : BitVec 64).msb = false := rfl
  rw [BitVec.smod_eq, small, positive]
  change ((b &&& 63).toBitVec % 64).toNat = _
  rw [shiftAmount_eq, BitVec.toNat_umod, masked]
  exact Nat.mod_mod _ _

theorem toNat_modEq_toInt (x : BitVec 64) : (x.toNat : Int) ≡ x.toInt [ZMOD 2 ^ 64] := by
  rw [BitVec.toInt_eq_toNat_bmod]
  exact (bmod_modEq _).symm

theorem shiftLeft_modEq (a b : Int64) :
    (a <<< (b &&& 63)).toInt ≡ a.toInt * 2 ^ shiftAmount b [ZMOD 2 ^ 64] := by
  rw [← Int64.toInt_toBitVec, Int64.toBitVec_shiftLeft, BitVec.shiftLeft_eq', toNat_masked,
    BitVec.toInt_shiftLeft, Nat.shiftLeft_eq, ← Int64.toInt_toBitVec a]
  calc ((a.toBitVec.toNat * 2 ^ shiftAmount b : Nat) : Int).bmod (2 ^ 64)
      ≡ (a.toBitVec.toNat * 2 ^ shiftAmount b : Nat) [ZMOD 2 ^ 64] := bmod_modEq _
    _ = a.toBitVec.toNat * 2 ^ shiftAmount b := by push_cast; rfl
    _ ≡ a.toBitVec.toInt * 2 ^ shiftAmount b [ZMOD 2 ^ 64] :=
      (toNat_modEq_toInt _).mul_right _

theorem toInt_shiftRight (a b : Int64) :
    (a >>> (b &&& 63)).toInt = ⌊(a.toInt : ℚ) / 2 ^ shiftAmount b⌋ := by
  have floor := Rat.floor_intCast_div_natCast a.toInt (2 ^ shiftAmount b)
  push_cast at floor
  rw [← Int64.toInt_toBitVec, Int64.toBitVec_shiftRight, BitVec.sshiftRight_eq', toNat_masked,
    BitVec.toInt_sshiftRight, Int.shiftRight_eq_div_pow, Int64.toInt_toBitVec, floor]
  push_cast
  rfl

end

namespace Machine

variable {m m₀ : Machine} {i : Instr} {rest : List Value}

def Offers (rest taken : List Value) (m : Machine) : Prop :=
  m.stack.toList = rest ++ taken ∧ m.stack.floor ≤ rest.length

def withValues (values : List Value) (m : Machine) : Machine :=
  { m with stack := { m.stack with values := values.toArray } }

/-- The instruction succeeds, goes on behind itself, and leaves these values on the stack and all
else as it is; as the next instruction of the program it is completed. -/
structure Leaves (i : Instr) (values : List Value) (m : Machine) : Prop where
  exec : ∀ next, Machine.exec i next m = .ok .proceed (m.withValues values)
  cycle : ∀ next, m.code.decode m.ip = .ok (i, next) → ∃ more m',
    Machine.cycle m = .ok more m' ∧ m'.stack = (m.withValues values).stack ∧
      m'.calls = m.calls ∧ m'.heap = m.heap ∧ m'.ip = next

structure Fails (i : Instr) (fault : Fault) (m : Machine) : Prop where
  exec : ∀ next, Machine.exec i next m = .error fault m
  cycle : ∀ next, m.code.decode m.ip = .ok (i, next) → ∃ m',
    Machine.cycle m = .error fault m' ∧ m' = { m with journal := m'.journal }

theorem Offers.operand {taken : List Value} (offers : m.Offers rest taken) {n : Nat} {v : Value}
    (found : taken.reverse[n]? = some v) : m.stack.operand n = .ok v :=
  OperandStack.operand_of_toList offers.1 offers.2 found

theorem Offers.replaceTop {taken : List Value} (offers : m.Offers rest taken) (out : Array Value) :
    m.replaceTop taken.length out = m.withValues (rest ++ out.toList) := by
  have below : m.stack.below taken.length = rest := by
    have size : m.stack.depth = (rest ++ taken).length := congrArg List.length offers.1
    rw [OperandStack.below, offers.1, size, List.length_append, Nat.add_sub_cancel,
      List.take_left]
  rw [Machine.replaceTop, OperandStack.replaceTop_eq, below]
  rfl

theorem binaryEffect_of_offers {a b : Value} (f : Value → Value → Except Fault Value)
    (offers : m.Offers rest [a, b]) :
    m.binaryEffect f = (f a b).map fun c => m.withValues (rest ++ [c]) := by
  rw [binaryEffect, offers.operand rfl, offers.operand rfl]
  change (f a b).map (fun c => m.replaceTop [a, b].length #[c]) = _
  simp only [offers.replaceTop]

theorem unaryEffect_of_offers {a : Value} (f : Value → Except Fault Value)
    (offers : m.Offers rest [a]) :
    m.unaryEffect f = (f a).map fun c => m.withValues (rest ++ [c]) := by
  rw [unaryEffect, offers.operand rfl]
  change (f a).map (fun c => m.replaceTop [a].length #[c]) = _
  simp only [offers.replaceTop]

/-- An instruction that has its effect on every machine with these operands has it on the machine
with its journal written, too, so it has it as the next instruction of the program. -/
theorem leaves_of_effect {taken values : List Value} (coherent : m.Coherent)
    (offers : m.Offers rest taken) (result : ∀ (m' : Machine) next, m'.Offers rest taken →
      m'.effect i next = .ok (.proceed, m'.withValues values)) : m.Leaves i values := by
  constructor
  · intro next
    rw [exec_eq coherent, result m next offers]
    rfl
  · intro next decoded
    rw [cycle_eq coherent decoded, result (m.note (.dispatched m.ip i m.stack.depth)) next offers]
    exact ⟨_, _, rfl, rfl, rfl, rfl, rfl⟩

theorem leaves_of_binary {f : Value → Value → Except Fault Value} {a b c : Value}
    (coherent : m.Coherent) (offers : m.Offers rest [a, b])
    (shape : ∀ (m' : Machine) next, m'.effect i next = (m'.binaryEffect f).map (.proceed, ·))
    (computed : f a b = .ok c) : m.Leaves i (rest ++ [c]) := by
  apply leaves_of_effect coherent offers
  intro m' next offers'
  rw [shape, binaryEffect_of_offers f offers', computed]
  rfl

theorem leaves_of_unary {f : Value → Except Fault Value} {a c : Value}
    (coherent : m.Coherent) (offers : m.Offers rest [a])
    (shape : ∀ (m' : Machine) next, m'.effect i next = (m'.unaryEffect f).map (.proceed, ·))
    (computed : f a = .ok c) : m.Leaves i (rest ++ [c]) := by
  apply leaves_of_effect coherent offers
  intro m' next offers'
  rw [shape, unaryEffect_of_offers f offers', computed]
  rfl

theorem fails_of_binary {f : Value → Value → Except Fault Value} {a b : Value} {fault : Fault}
    (coherent : m.Coherent) (offers : m.Offers rest [a, b])
    (shape : ∀ (m' : Machine) next, m'.effect i next = (m'.binaryEffect f).map (.proceed, ·))
    (failed : f a b = .error fault) : m.Fails i fault := by
  have result : ∀ (m' : Machine) next, m'.Offers rest [a, b] →
      m'.effect i next = .error fault := by
    intro m' next offers'
    rw [shape, binaryEffect_of_offers f offers', failed]
    rfl
  constructor
  · intro next
    rw [exec_eq coherent, result m next offers]
    rfl
  · intro next decoded
    rw [cycle_eq coherent decoded, result (m.note (.dispatched m.ip i m.stack.depth)) next offers]
    exact ⟨_, rfl, rfl⟩

theorem division_leaves {a b : Int64} (coherent : m.Coherent)
    (offers : m.Offers rest [.int a, .int b]) (nonzero : b ≠ 0) :
    m.Leaves (.arith .div) (rest ++ [Value.int (a / b)]) ∧
      m.Leaves (.arith .mod) (rest ++ [Value.int (a % b)]) := by
  have quotient : Value.arith .div (.int a) (.int b) = .ok (.int (a / b)) := by
    rw [Value.arith, ArithOp.onInts, if_neg nonzero]
    rfl
  have remainder : Value.arith .mod (.int a) (.int b) = .ok (.int (a % b)) := by
    rw [Value.arith, ArithOp.onInts, if_neg nonzero]
    rfl
  exact ⟨leaves_of_binary coherent offers (fun _ _ => rfl) quotient,
    leaves_of_binary coherent offers (fun _ _ => rfl) remainder⟩

/-- The integer instructions of a machine that was created and run, on words that lie above the
floor of its stack. Nothing but a division by zero fails, and it leaves both operands. -/
theorem integer_instructions_are_exact {journal : Journal} {code : Code} {config : Config}
    (made : create journal code config = .ok m₀) (reached : m₀.Reaches m) :
    (∀ (rest : List Value) (a b : Int64), m.Offers rest [.int a, .int b] →
      (∃ c, m.Leaves (.arith .add) (rest ++ [Value.int c]) ∧ Reduces (a.toInt + b.toInt) c) ∧
      (∃ c, m.Leaves (.arith .sub) (rest ++ [Value.int c]) ∧ Reduces (a.toInt - b.toInt) c) ∧
      (∃ c, m.Leaves (.arith .mul) (rest ++ [Value.int c]) ∧ Reduces (a.toInt * b.toInt) c) ∧
      (b ≠ 0 → ∃ quotient remainder, m.Leaves (.arith .div) (rest ++ [Value.int quotient]) ∧
        m.Leaves (.arith .mod) (rest ++ [Value.int remainder]) ∧ Divides a b quotient remainder) ∧
      (b = 0 → m.Fails (.arith .div) .divisionByZero ∧ m.Fails (.arith .mod) .divisionByZero) ∧
      (∃ c, m.Leaves (.bitwise .shl) (rest ++ [Value.int c]) ∧
        Reduces (a.toInt * 2 ^ (b.toInt % 64).toNat) c) ∧
      (∃ c, m.Leaves (.bitwise .shr) (rest ++ [Value.int c]) ∧
        c.toInt = ⌊(a.toInt : ℚ) / 2 ^ (b.toInt % 64).toNat⌋) ∧
      (∃ c, m.Leaves (.bitwise .and) (rest ++ [Value.int c]) ∧
        ∀ k, c.toBitVec.getLsbD k = (a.toBitVec.getLsbD k && b.toBitVec.getLsbD k)) ∧
      (∃ c, m.Leaves (.bitwise .or) (rest ++ [Value.int c]) ∧
        ∀ k, c.toBitVec.getLsbD k = (a.toBitVec.getLsbD k || b.toBitVec.getLsbD k)) ∧
      ∃ c, m.Leaves (.bitwise .xor) (rest ++ [Value.int c]) ∧
        ∀ k, c.toBitVec.getLsbD k = (a.toBitVec.getLsbD k ^^ b.toBitVec.getLsbD k)) ∧
    ∀ (rest : List Value) (a : Int64), m.Offers rest [.int a] →
      ∃ c, m.Leaves .neg (rest ++ [Value.int c]) ∧ Reduces (-a.toInt) c := by
  have coherent : m.Coherent := (reached.safe made).thread.toCoherent
  constructor
  · intro rest a b offers
    have leaves : ∀ {i : Instr} {f : Value → Value → Except Fault Value} {c : Int64},
        (∀ (m' : Machine) next, m'.effect i next = (m'.binaryEffect f).map (.proceed, ·)) →
        f (.int a) (.int b) = .ok (.int c) → m.Leaves i (rest ++ [.int c]) :=
      fun shape computed => leaves_of_binary coherent offers shape computed
    refine ⟨⟨a + b, leaves (fun _ _ => rfl) rfl, reduces_of_bmod (Int64.toInt_add a b)⟩,
      ⟨a - b, leaves (fun _ _ => rfl) rfl, reduces_of_bmod (Int64.toInt_sub a b)⟩,
      ⟨a * b, leaves (fun _ _ => rfl) rfl, reduces_of_bmod (Int64.toInt_mul a b)⟩, ?_, ?_,
      ⟨a <<< (b &&& 63), leaves (fun _ _ => rfl) rfl, reduces_of_modEq (shiftLeft_modEq a b)⟩,
      ⟨a >>> (b &&& 63), leaves (fun _ _ => rfl) rfl, toInt_shiftRight a b⟩,
      ⟨a &&& b, leaves (fun _ _ => rfl) rfl, ?_⟩, ⟨a ||| b, leaves (fun _ _ => rfl) rfl, ?_⟩,
      ⟨a ^^^ b, leaves (fun _ _ => rfl) rfl, ?_⟩⟩
    · intro nonzero
      obtain ⟨quotient, remainder⟩ := division_leaves coherent offers nonzero
      exact ⟨a / b, a % b, quotient, remainder, divides_of_ne_zero nonzero⟩
    · rintro rfl
      exact ⟨fails_of_binary coherent offers (fun _ _ => rfl) rfl,
        fails_of_binary coherent offers (fun _ _ => rfl) rfl⟩
    · intro k
      rw [Int64.toBitVec_and, BitVec.getLsbD_and]
    · intro k
      rw [Int64.toBitVec_or, BitVec.getLsbD_or]
    · intro k
      rw [Int64.toBitVec_xor, BitVec.getLsbD_xor]
  · intro rest a offers
    exact ⟨-a, leaves_of_unary coherent offers (fun _ _ => rfl) rfl,
      reduces_of_bmod (Int64.toInt_neg a)⟩

def dividing : Machine := small [.pushLong Int64.minValue, .push (-1), .arith .div, .halt]

def atDivision : Machine := (dividing.runFor 2).2

theorem least_word_by_minus_one_is_exact :
    create (.empty none) dividing.code dividing.config = .ok dividing ∧
    dividing.Reaches atDivision ∧ atDivision.Offers [] [.int Int64.minValue, .int (-1)] ∧
    atDivision.Leaves (.arith .div) [.int Int64.minValue] ∧
    atDivision.Leaves (.arith .mod) [.int 0] ∧
    atDivision.Leaves .neg [.int Int64.minValue, .int 1] := by
  have made : create (.empty none) dividing.code dividing.config = .ok dividing := rfl
  have reached : dividing.Reaches atDivision := .runFor 2 .refl
  have offers : atDivision.Offers [] [.int Int64.minValue, .int (-1)] := by
    unfold Offers
    decide +kernel
  have top : atDivision.Offers [.int Int64.minValue] [.int (-1)] := by
    unfold Offers
    decide +kernel
  obtain ⟨binary, unary⟩ := integer_instructions_are_exact made reached
  obtain ⟨_, _, _, divides, _⟩ := binary [] Int64.minValue (-1) offers
  obtain ⟨quotient, remainder, div, mod, division⟩ := divides (by decide)
  obtain ⟨opposite, neg, negated⟩ := unary [.int Int64.minValue] (-1) top
  have least : Int64.minValue = quotient := (division.quotient_eq _).mp (by decide +kernel)
  have nothing : remainder = 0 :=
    Int64.toInt_inj.mp (division.remainder_eq.trans (by decide +kernel))
  have one : 1 = opposite := (negated _).mp (by decide +kernel)
  subst least nothing one
  exact ⟨made, reached, offers, div, mod, neg⟩

end Machine

end StackMachine
