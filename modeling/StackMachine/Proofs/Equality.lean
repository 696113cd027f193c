import StackMachine.Proofs.Integers

namespace StackMachine

namespace Binary64

variable {x y z : Binary64} {k n : Nat}

theorem equal_iff : x.equal y = true ↔ ∃ rank, x.rank? = some rank ∧ y.rank? = some rank := by
  unfold equal compareRanks
  cases x.rank? with
  | none => simp
  | some a =>
    cases y.rank? with
    | none => simp
    | some b =>
      constructor
      · intro same
        exact ⟨b, congrArg some (eq_of_beq same), rfl⟩
      · rintro ⟨rank, left, right⟩
        cases left
        cases right
        exact beq_self_eq_true a

theorem equal_comm (x y : Binary64) : x.equal y = y.equal x := by
  rw [Bool.eq_iff_iff, equal_iff, equal_iff]
  simp only [and_comm]

theorem equal_trans (first : x.equal y = true) (second : y.equal z = true) :
    x.equal z = true := by
  obtain ⟨a, left, middle⟩ := equal_iff.mp first
  obtain ⟨b, same, right⟩ := equal_iff.mp second
  cases middle.symm.trans same
  exact equal_iff.mpr ⟨a, left, right⟩

theorem aligned_bounds (nonzero : n ≠ 0) (short : n.log2 ≤ 52) :
    hiddenBit ≤ n * 2 ^ (52 - n.log2) ∧ n * 2 ^ (52 - n.log2) < 2 * hiddenBit := by
  have whole : 2 ^ n.log2 * 2 ^ (52 - n.log2) = hiddenBit := by
    rw [← pow_add, Nat.add_sub_of_le short]
    rfl
  have double : 2 ^ (n.log2 + 1) * 2 ^ (52 - n.log2) = 2 * hiddenBit := by
    rw [pow_succ, mul_right_comm, whole, mul_comm]
  constructor
  · rw [← whole]
    exact Nat.mul_le_mul_right _ (Nat.log2_self_le nonzero)
  · rw [← double]
    exact Nat.mul_lt_mul_of_pos_right Nat.lt_log2_self (Nat.two_pow_pos _)

theorem roundShift_bounds (long : 52 < n.log2) :
    hiddenBit ≤ roundShift n (n.log2 - 52) ∧ roundShift n (n.log2 - 52) ≤ 2 * hiddenBit := by
  have nonzero : n ≠ 0 := by
    rintro rfl
    simp at long
  have low : hiddenBit ≤ n / 2 ^ (n.log2 - 52) := by
    rw [Nat.le_div_iff_mul_le (Nat.two_pow_pos _)]
    calc hiddenBit * 2 ^ (n.log2 - 52) = 2 ^ (52 + (n.log2 - 52)) := (pow_add 2 52 _).symm
      _ = 2 ^ n.log2 := by rw [Nat.add_sub_of_le (Nat.le_of_lt long)]
      _ ≤ n := Nat.log2_self_le nonzero
  have high : n / 2 ^ (n.log2 - 52) < 2 * hiddenBit := by
    rw [Nat.div_lt_iff_lt_mul (Nat.two_pow_pos _)]
    calc n < 2 ^ (n.log2 + 1) := Nat.lt_log2_self
      _ = 2 ^ (53 + (n.log2 - 52)) := by congr 1; omega
      _ = 2 * hiddenBit * 2 ^ (n.log2 - 52) := pow_add 2 53 _
  have shape : roundShift n (n.log2 - 52) = n / 2 ^ (n.log2 - 52) ∨
      roundShift n (n.log2 - 52) = n / 2 ^ (n.log2 - 52) + 1 := by
    unfold roundShift
    dsimp only
    split
    · exact .inr rfl
    · exact .inl rfl
  omega

theorem roundMagnitude_eq (nonzero : n ≠ 0) :
    roundMagnitude n 1074 = (n.log2 + 1022) * hiddenBit +
      if n.log2 ≤ 52 then n * 2 ^ (52 - n.log2) else roundShift n (n.log2 - 52) := by
  have tall : ¬ n.log2 + 1074 < 53 := by omega
  have exponent : n.log2 + 1074 - 52 = n.log2 + 1022 := by omega
  unfold roundMagnitude
  dsimp only
  rw [if_neg nonzero, if_neg tall, exponent]
  split <;> rfl

theorem roundMagnitude_bounds (nonzero : n ≠ 0) :
    (n.log2 + 1023) * hiddenBit ≤ roundMagnitude n 1074 ∧
      roundMagnitude n 1074 ≤ (n.log2 + 1024) * hiddenBit := by
  rw [roundMagnitude_eq nonzero]
  split
  · rename_i short
    have bounds := aligned_bounds nonzero short
    constructor <;> linarith
  · rename_i long
    have bounds := roundShift_bounds (Nat.not_le.mp long)
    constructor <;> linarith

theorem roundMagnitude_ne_zero (nonzero : n ≠ 0) : roundMagnitude n 1074 ≠ 0 := by
  have low := (roundMagnitude_bounds nonzero).1
  have positive : 0 < (n.log2 + 1023) * hiddenBit := Nat.mul_pos (by omega) (by decide)
  omega

theorem roundMagnitude_of_short (nonzero : n ≠ 0) (short : n.log2 ≤ 52) :
    roundMagnitude n 1074 = (n.log2 + 1022) * hiddenBit + n * 2 ^ (52 - n.log2) := by
  rw [roundMagnitude_eq nonzero, if_pos short]

/-- Only a carry, which a short integer does not need, reaches the next power of two. -/
theorem log2_le_of_roundMagnitude_le (nonzero : k ≠ 0) (short : k.log2 ≤ 52) (other : n ≠ 0)
    (below : roundMagnitude n 1074 ≤ roundMagnitude k 1074) : n.log2 ≤ k.log2 := by
  have low := (roundMagnitude_bounds other).1
  have high := (aligned_bounds nonzero short).2
  rw [roundMagnitude_of_short nonzero short] at below
  by_contra longer
  have next : (k.log2 + 1024) * hiddenBit ≤ (n.log2 + 1023) * hiddenBit :=
    Nat.mul_le_mul_right _ (by omega)
  linarith

/-- No other integer rounds to an integer of at most 53 bits. -/
theorem roundMagnitude_inj (short : k < 2 ^ 53)
    (same : roundMagnitude k 1074 = roundMagnitude n 1074) : k = n := by
  by_cases zero : k = 0
  · subst zero
    by_contra nonzero
    exact roundMagnitude_ne_zero (Ne.symm nonzero) same.symm
  · have nonzero : n ≠ 0 := by
      rintro rfl
      exact roundMagnitude_ne_zero zero same
    have bits : k.log2 ≤ 52 := by
      have bound := (Nat.log2_lt zero).mpr short
      omega
    -- The patterns tell the number of bits, and for as many bits they tell the integer.
    have atMost := log2_le_of_roundMagnitude_le zero bits nonzero same.ge
    have atLeast := log2_le_of_roundMagnitude_le nonzero (atMost.trans bits) zero same.le
    have length : k.log2 = n.log2 := Nat.le_antisymm atLeast atMost
    rw [roundMagnitude_of_short zero bits, roundMagnitude_of_short nonzero (atMost.trans bits),
      length] at same
    exact Nat.eq_of_mul_eq_mul_right (Nat.two_pow_pos _) (Nat.add_left_cancel same)

theorem bits_withSign (negative : Bool) (unsigned : k < signBit) :
    (withSign negative k).bits.toNat = if negative then signBit + k else k := by
  unfold withSign ofNatBits
  apply UInt64.toNat_ofNat_of_lt'
  change _ < 2 * signBit
  split <;> omega

theorem magnitude_withSign (negative : Bool) (unsigned : k < signBit) :
    (withSign negative k).magnitude = k := by
  rw [magnitude, bits_withSign negative unsigned]
  split
  · rw [Nat.add_mod_left, Nat.mod_eq_of_lt unsigned]
  · exact Nat.mod_eq_of_lt unsigned

theorem isNegative_withSign (negative : Bool) (unsigned : k < signBit) :
    (withSign negative k).isNegative = negative := by
  have positive : 0 < signBit := by decide
  rw [isNegative, bits_withSign negative unsigned]
  cases negative with
  | true => simp [Nat.add_div_left k positive, Nat.div_eq_of_lt unsigned]
  | false => simp [Nat.div_eq_of_lt unsigned]

theorem rank?_withSign (negative : Bool) (finite : k < 2047 * hiddenBit) :
    (withSign negative k).rank? = some (if negative then -(k : Int) else k) := by
  have unsigned : k < signBit := finite.trans (by decide)
  have field : (withSign negative k).exponentField ≠ 2047 := by
    rw [exponentField, magnitude_withSign negative unsigned]
    exact (Nat.div_lt_of_lt_mul (by linarith)).ne
  have number : (withSign negative k).isNaN = false := by simp [isNaN, field]
  rw [rank?, number, isNegative_withSign negative unsigned, magnitude_withSign negative unsigned]
  rfl

theorem rank?_ofInt64 (n : Int64) :
    (ofInt64 n).rank? = some (if n.toInt < 0 then -(roundMagnitude n.toInt.natAbs 1074 : Int)
      else roundMagnitude n.toInt.natAbs 1074) := by
  have finite : roundMagnitude n.toInt.natAbs 1074 < 2047 * hiddenBit := by
    by_cases zero : n.toInt.natAbs = 0
    · rw [zero]
      decide
    · have range : n.toInt.natAbs < 2 ^ 64 := by
        have low := n.le_toInt
        have high := n.toInt_lt
        omega
      have bits : n.toInt.natAbs.log2 < 64 := (Nat.log2_lt zero).mpr range
      calc roundMagnitude n.toInt.natAbs 1074
          ≤ (n.toInt.natAbs.log2 + 1024) * hiddenBit := (roundMagnitude_bounds zero).2
        _ < 2047 * hiddenBit := Nat.mul_lt_mul_of_pos_right (by omega) (by decide)
  rw [ofInt64, ofInt, rank?_withSign _ finite]
  simp only [decide_eq_true_eq]

theorem ofInt64_inj {m n : Int64} (short : |m.toInt| < 2 ^ 53)
    (same : (ofInt64 m).rank? = (ofInt64 n).rank?) : m = n := by
  rw [Int.abs_eq_natAbs] at short
  have left : m.toInt.natAbs ≠ 0 → _ := roundMagnitude_ne_zero
  have right : n.toInt.natAbs ≠ 0 → _ := roundMagnitude_ne_zero
  have sizes := roundMagnitude_inj (k := m.toInt.natAbs) (n := n.toInt.natAbs) (by omega)
  rw [rank?_ofInt64, rank?_ofInt64, Option.some_inj] at same
  apply Int64.toInt_inj.mp
  split at same <;> split at same <;> omega

end Binary64

namespace Value

variable {a b c : Value}

/-- Two different integers, and between them a floating-point number that equals both. -/
inductive Straddles : Value → Value → Value → Prop
  | mk {m n : Int64} {x : Binary64} (differ : m ≠ n) (left : (Value.int m).equals (.float x) = true)
    (right : (Value.float x).equals (.int n) = true) : Straddles (.int m) (.float x) (.int n)

theorem equals_comm (a b : Value) : a.equals b = b.equals a := by
  cases a with
  | int m =>
    cases b with
    | int n => exact BEq.comm
    | float y => exact Binary64.equal_comm _ y
    | ref | null => rfl
  | float x =>
    cases b with
    | int n => exact Binary64.equal_comm x _
    | float y => exact Binary64.equal_comm x y
    | ref | null => rfl
  | ref g =>
    cases b with
    | ref h => exact BEq.comm
    | int | float | null => rfl
  | null => cases b <;> rfl

theorem equals_trans (first : a.equals b = true) (second : b.equals c = true)
    (plain : ¬ Straddles a b c) : a.equals c = true := by
  cases b with
  | int n =>
    cases a with
    | int m =>
      obtain rfl : m = n := eq_of_beq first
      exact second
    | float x =>
      cases c with
      | int k =>
        obtain rfl : n = k := eq_of_beq second
        exact first
      | float z => exact Binary64.equal_trans first second
      | ref | null => cases second
    | ref | null => cases first
  | float y =>
    cases a with
    | int m =>
      cases c with
      | int n =>
        -- Both comparisons were of rounded integers, and this one is not.
        by_contra differ
        refine plain ⟨?_, first, second⟩
        rintro rfl
        exact differ (beq_self_eq_true m)
      | float z => exact Binary64.equal_trans first second
      | ref | null => cases second
    | float x =>
      cases c with
      | int n => exact Binary64.equal_trans first second
      | float z => exact Binary64.equal_trans first second
      | ref | null => cases second
    | ref | null => cases first
  | ref h =>
    cases a with
    | ref g =>
      obtain rfl : g = h := eq_of_beq first
      exact second
    | int | float | null => cases first
  | null =>
    cases a with
    | null => exact second
    | int | float | ref => cases first

theorem Straddles.long (straddles : Straddles a b c) : ∃ m x n, a = .int m ∧ b = .float x ∧
    c = .int n ∧ m ≠ n ∧ 2 ^ 53 ≤ |m.toInt| ∧ 2 ^ 53 ≤ |n.toInt| := by
  obtain @⟨m, n, x, differ, left, right⟩ := straddles
  obtain ⟨rank, placed, middle⟩ := Binary64.equal_iff.mp left
  obtain ⟨place, found, other⟩ := Binary64.equal_iff.mp right
  -- Both integers have the place of the number between them.
  have same : (Binary64.ofInt64 m).rank? = (Binary64.ofInt64 n).rank? := by
    rw [placed, other, ← middle, found]
  refine ⟨m, x, n, rfl, rfl, rfl, differ, ?_, ?_⟩
  · by_contra short
    exact differ (Binary64.ofInt64_inj (not_le.mp short) same)
  · by_contra short
    exact differ.symm (Binary64.ofInt64_inj (not_le.mp short) same.symm)

theorem Straddles.not_equals (straddles : Straddles a b c) : a.equals c = false := by
  obtain @⟨m, n, x, differ, -, -⟩ := straddles
  exact beq_false_of_ne differ

/-- Equality of values, and the instructions that report it. Of the laws of a partial equivalence,
symmetry holds throughout, and transitivity fails where a number straddles two long integers and
nowhere else. -/
theorem equality_fails_only_through_rounding (a b c : Value) :
    a.equals b = b.equals a ∧
    ((a.equals b = true → b.equals c = true → a.equals c = true) ↔ ¬ Straddles a b c) ∧
    (Straddles a b c → ∃ (m : Int64) (x : Binary64) (n : Int64), a = .int m ∧ b = .float x ∧
      c = .int n ∧ m ≠ n ∧ 2 ^ 53 ≤ |m.toInt| ∧ 2 ^ 53 ≤ |n.toInt|) ∧
    ∀ (journal : Journal) (code : Code) (config : Config) (m₀ m : Machine) (rest : List Value),
      Machine.create journal code config = .ok m₀ → m₀.Reaches m → m.Offers rest [a, b] →
        m.Leaves .eq (rest ++ [Value.ofBool (a.equals b)]) ∧
        m.Leaves .ne (rest ++ [Value.ofBool (!a.equals b)]) := by
  refine ⟨equals_comm a b, ⟨?_, ?_⟩, Straddles.long, ?_⟩
  · intro transitive straddles
    have differ := straddles.not_equals
    obtain ⟨-, left, right⟩ := straddles
    exact Bool.false_ne_true (differ.symm.trans (transitive left right))
  · intro plain first second
    exact equals_trans first second plain
  · intro journal code config m₀ m rest made reached offers
    have coherent : m.Coherent := (reached.safe made).thread.toCoherent
    exact ⟨Machine.leaves_of_binary coherent offers (fun _ _ => rfl) rfl,
      Machine.leaves_of_binary coherent offers (fun _ _ => rfl) rfl⟩

def rounded : Binary64 := ⟨0x4340000000000000⟩

theorem equality_is_not_transitive :
    ¬ ∀ a b c : Value, a.equals b = true → b.equals c = true → a.equals c = true := by
  intro transitive
  have relates := transitive (.int 9007199254740993) (.float rounded) (.int 9007199254740992)
    (by decide +kernel) (by decide +kernel)
  exact absurd relates (by decide +kernel)

def comparing : Machine :=
  Machine.small [.pushLong 9007199254740993, .pushFloat rounded, .eq, .halt]

def atComparison : Machine := (comparing.runFor 2).2

theorem rounded_number_straddles :
    Straddles (.int 9007199254740993) (.float rounded) (.int 9007199254740992) ∧
    (Value.int 9007199254740993).equals (.int 9007199254740992) = false ∧
    atComparison.Leaves .eq [.int 1] ∧ atComparison.Leaves .ne [.int 0] := by
  have straddles : Straddles (.int 9007199254740993) (.float rounded) (.int 9007199254740992) :=
    ⟨by decide, by decide +kernel, by decide +kernel⟩
  have made : Machine.create (.empty none) comparing.code comparing.config = .ok comparing := rfl
  have reached : comparing.Reaches atComparison := .runFor 2 .refl
  have offers : atComparison.Offers [] [.int 9007199254740993, .float rounded] := by
    unfold Machine.Offers
    decide +kernel
  obtain ⟨-, transitive, -, reports⟩ := equality_fails_only_through_rounding
    (.int 9007199254740993) (.float rounded) (.int 9007199254740992)
  obtain ⟨eq, ne⟩ := reports _ _ _ _ _ _ made reached offers
  refine ⟨straddles, ?_, eq, ne⟩
  by_contra relates
  exact transitive.mp (fun _ _ => eq_true_of_ne_false relates) straddles

end Value

end StackMachine
