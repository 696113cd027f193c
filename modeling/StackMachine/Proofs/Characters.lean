import StackMachine.Code.Listing

namespace StackMachine

variable {c : Char}

theorem isDigit_of_toDigits (n : Nat) : ∀ c ∈ Nat.toDigits 10 n, c.isDigit = true :=
  fun _ member => Nat.isDigit_of_mem_toDigits (by decide) (by decide) member

@[simp] theorem notMem_toDigits (other : c.isDigit = false) (n : Nat) :
    c ∉ Nat.toDigits 10 n := by
  intro member
  rw [isDigit_of_toDigits n c member] at other
  cases other

@[simp] theorem notMem_repr (other : c.isDigit = false) (unsigned : c ≠ '-') (z : Int) :
    c ∉ z.repr.toList := by
  cases z <;> simp [Int.repr, other, unsigned]

@[simp] theorem notMem_paddedNumeral (other : c.isDigit = false) (width n : Nat) :
    c ∉ (paddedNumeral width n).toList := by
  have nonzero : c ≠ '0' := by
    rintro rfl
    cases other
  simp [paddedNumeral, List.leftpad, other, nonzero]

theorem Opcode.isUpper_mnemonic (op : Opcode) : op.mnemonic.toList.all Char.isUpper = true := by
  cases op <;> decide

@[simp] theorem Opcode.notMem_mnemonic (other : c.isUpper = false) (op : Opcode) :
    c ∉ op.mnemonic.toList := by
  intro member
  rw [List.all_eq_true.mp op.isUpper_mnemonic c member] at other
  cases other

theorem ofDigitChars_paddedNumeral (width n : Nat) :
    Nat.ofDigitChars 10 (paddedNumeral width n).toList 0 = n := by
  rw [paddedNumeral, String.toList_ofList, List.leftpad, Nat.ofDigitChars_append,
    Nat.ofDigitChars_replicate_zero, Nat.mul_zero]
  exact Nat.ofDigitChars_toDigits (by decide) (by decide)

end StackMachine
