import Mathlib
import StackMachine.Code.Codec

namespace StackMachine

@[simp] theorem length_littleEndian (width n : Nat) : (littleEndian width n).length = width := by
  induction width generalizing n with
  | zero => rfl
  | succ width ih => simp [littleEndian, ih]

theorem ofLittleEndian_littleEndian (width n : Nat) :
    ofLittleEndian (littleEndian width n) = n % 256 ^ width := by
  induction width generalizing n with
  | zero => simp [littleEndian, ofLittleEndian, Nat.mod_one]
  | succ width ih =>
    rw [Nat.pow_succ, Nat.mul_comm, Nat.mod_mul]
    simp [littleEndian, ofLittleEndian, ih]

theorem littleEndian_ofLittleEndian (bytes : List UInt8) :
    littleEndian bytes.length (ofLittleEndian bytes) = bytes := by
  induction bytes with
  | nil => rfl
  | cons b rest ih =>
    have bound := b.toNat_lt
    have quotient : (b.toNat + 256 * ofLittleEndian rest) / 256 = ofLittleEndian rest := by omega
    simp only [List.length_cons, littleEndian, ofLittleEndian, quotient, ih]
    congr 1
    apply UInt8.toNat.inj
    simp

theorem ofLittleEndian_lt (bytes : List UInt8) : ofLittleEndian bytes < 256 ^ bytes.length := by
  rw [← littleEndian_ofLittleEndian bytes, ofLittleEndian_littleEndian, length_littleEndian]
  exact Nat.mod_lt _ (Nat.pow_pos (by decide))

theorem ofLittleEndian_append (bytes beyond : List UInt8) :
    ofLittleEndian (bytes ++ beyond) =
      ofLittleEndian bytes + 256 ^ bytes.length * ofLittleEndian beyond := by
  induction bytes with
  | nil => simp [ofLittleEndian]
  | cons b rest ih =>
    simp only [List.cons_append, ofLittleEndian, ih, List.length_cons, Nat.pow_succ]
    ring

theorem word_littleEndian (n : UInt32) (beyond : List UInt8) :
    UInt32.ofNat (ofLittleEndian ((littleEndian 4 n.toNat ++ beyond).take 4)) = n := by
  have bound : n.toNat < 256 ^ 4 := n.toNat_lt
  rw [List.take_left' (length_littleEndian 4 n.toNat), ofLittleEndian_littleEndian,
    Nat.mod_eq_of_lt bound]
  exact UInt32.ofNat_toNat

theorem long_littleEndian (n : UInt64) (beyond : List UInt8) :
    UInt64.ofNat (ofLittleEndian (littleEndian 8 n.toNat ++ beyond)) = n := by
  have bound : n.toNat < 256 ^ 8 := n.toNat_lt
  have split := ofLittleEndian_append (littleEndian 8 n.toNat) beyond
  rw [ofLittleEndian_littleEndian, length_littleEndian, Nat.mod_eq_of_lt bound] at split
  apply UInt64.toNat.inj
  rw [split, UInt64.toNat_ofNat']
  change (n.toNat + 256 ^ 8 * ofLittleEndian beyond) % 256 ^ 8 = n.toNat
  rw [Nat.add_mul_mod_self_left, Nat.mod_eq_of_lt bound]

theorem littleEndian_word (bytes : List UInt8) (length : bytes.length = 4) :
    littleEndian 4 (UInt32.ofNat (ofLittleEndian (bytes.take 4))).toNat = bytes := by
  have all : bytes.take 4 = bytes := List.take_of_length_le (Nat.le_of_eq length)
  have bound := ofLittleEndian_lt bytes
  have back := littleEndian_ofLittleEndian bytes
  rw [length] at bound back
  have same : (UInt32.ofNat (ofLittleEndian bytes)).toNat = ofLittleEndian bytes :=
    UInt32.toNat_ofNat_of_lt' bound
  rw [all, same, back]

theorem littleEndian_long (bytes : List UInt8) (length : bytes.length = 8) :
    littleEndian 8 (UInt64.ofNat (ofLittleEndian bytes)).toNat = bytes := by
  have bound := ofLittleEndian_lt bytes
  have back := littleEndian_ofLittleEndian bytes
  rw [length] at bound back
  have same : (UInt64.ofNat (ofLittleEndian bytes)).toNat = ofLittleEndian bytes :=
    UInt64.toNat_ofNat_of_lt' bound
  rw [same, back]

theorem Opcode.mem_all (op : Opcode) : op ∈ Opcode.all := by cases op <;> decide

theorem Opcode.nodup_mnemonics : (all.map mnemonic).Nodup := by decide +kernel

theorem Opcode.mnemonic_injective : Function.Injective Opcode.mnemonic := by
  intro a b same
  exact List.inj_on_of_nodup_map nodup_mnemonics a.mem_all b.mem_all same

theorem Opcode.operandWidth_le (op : Opcode) : op.operandWidth ≤ 8 := by cases op <;> decide

namespace Instr

theorem opcode_ofOperand (op : Opcode) (bytes : List UInt8) : (ofOperand op bytes).opcode = op := by
  cases op <;> rfl

theorem length_operand (i : Instr) : i.operand.length = i.opcode.operandWidth := by
  cases i with
  | arith op => cases op <;> rfl
  | bitwise op => cases op <;> rfl
  | order op => cases op <;> rfl
  | branch sense target => cases sense <;> rfl
  | new kind size => cases kind <;> rfl
  | _ => rfl

theorem ofOperand_operand (i : Instr) (beyond : List UInt8) :
    ofOperand i.opcode (i.operand ++ beyond) = i := by
  cases i with
  | push n =>
    have word := word_littleEndian n.toUInt32 beyond
    simp only [opcode, ofOperand, operand, word]
    rfl
  | pushLong n =>
    have long := long_littleEndian n.toUInt64 beyond
    simp only [opcode, ofOperand, operand, long]
    rfl
  | pushFloat x =>
    have long := long_littleEndian x.bits beyond
    simp only [opcode, ofOperand, operand, long]
  | pick n => exact congrArg pick (word_littleEndian n beyond)
  | arith op => cases op <;> rfl
  | bitwise op => cases op <;> rfl
  | order op => cases op <;> rfl
  | jump target => exact congrArg jump (word_littleEndian target beyond)
  | branch sense target =>
    cases sense <;> exact congrArg (branch _) (word_littleEndian target beyond)
  | call target argc =>
    have word := word_littleEndian target ([argc] ++ beyond)
    simp only [opcode, ofOperand, operand, List.append_assoc, word]
    congr 1
  | new kind size => cases kind <;> exact congrArg (new _) (word_littleEndian size beyond)
  | getField field => exact congrArg getField (word_littleEndian field beyond)
  | setField field => exact congrArg setField (word_littleEndian field beyond)
  | _ => rfl

theorem operand_ofOperand {op : Opcode} {bytes : List UInt8}
    (length : bytes.length = op.operandWidth) : (ofOperand op bytes).operand = bytes := by
  cases op with
  | push => exact littleEndian_word bytes length
  | pushLong => exact littleEndian_long bytes length
  | pushFloat => exact littleEndian_long bytes length
  | pick | jump | jumpIfZero | jumpIfNonzero | newRecord | newBytes | getField | setField =>
    exact littleEndian_word bytes length
  | call =>
    match bytes, length with
    | [a, b, c, d, argc], _ => exact congrArg (· ++ [argc]) (littleEndian_word [a, b, c, d] rfl)
  | ret | load | store =>
    match bytes, length with
    | [byte], _ => rfl
  | _ => exact (List.eq_nil_of_length_eq_zero length).symm

theorem length_encode (i : Instr) : i.encode.length = i.encodedLength := by
  rw [encode, List.length_cons, length_operand, encodedLength, Nat.add_comm]

theorem ofOperand_append {op : Opcode} {bytes : List UInt8}
    (length : bytes.length = op.operandWidth) (beyond : List UInt8) :
    ofOperand op (bytes ++ beyond) = ofOperand op bytes := by
  have same := (ofOperand op bytes).ofOperand_operand beyond
  rwa [opcode_ofOperand, operand_ofOperand length] at same

end Instr

namespace Code

variable {code : Code} {offset next : Nat} {i : Instr}

theorem decode_next (decoded : code.decode offset = .ok (i, next)) :
    next = offset + i.encodedLength ∧ next ≤ code.size := by
  unfold decode at decoded
  split at decoded
  · cases decoded
  · split at decoded
    · cases decoded
    · rename_i op _
      dsimp only at decoded
      split at decoded
      · rename_i inside
        cases decoded
        refine ⟨?_, inside⟩
        rw [Instr.encodedLength, Instr.opcode_ofOperand]
        omega
      · cases decoded

theorem decode_inside (inside : offset < code.size) (position size : Nat) :
    code.decode offset ≠ .error (.offsetOutOfRange position size) := by
  intro failed
  unfold decode at failed
  rw [Array.getElem?_eq_getElem inside] at failed
  dsimp only at failed
  split at failed
  · cases failed
  · split at failed <;> cases failed

theorem toList_extract_cons {byte : UInt8} (found : code[offset]? = some byte)
    (ahead : offset < next) :
    (code.extract offset next).toList = byte :: (code.extract (offset + 1) next).toList := by
  obtain ⟨inside, rfl⟩ := Array.getElem?_eq_some_iff.mp found
  have first : code.toList.drop offset = code[offset] :: code.toList.drop (offset + 1) :=
    List.drop_eq_getElem_cons (by simpa using inside)
  have count : next - offset = next - (offset + 1) + 1 := by omega
  simp only [Array.toList_extract, List.extract_eq_take_drop, first, count, List.take_succ_cons]

theorem length_operand_bytes {op : Opcode} (inside : offset + 1 + op.operandWidth ≤ code.size) :
    (code.extract (offset + 1) (offset + 1 + op.operandWidth)).toList.length = op.operandWidth := by
  simp only [Array.length_toList, Array.size_extract]
  omega

theorem decode_eq_ok_iff :
    code.decode offset = .ok (i, next) ↔
      next ≤ code.size ∧ next = offset + i.encodedLength ∧
        (code.extract offset next).toList = i.encode := by
  constructor
  · intro decoded
    obtain ⟨behind, inside⟩ := decode_next decoded
    refine ⟨inside, behind, ?_⟩
    have ahead := lt_of_decode decoded
    unfold decode at decoded
    split at decoded
    · cases decoded
    · rename_i byte found
      split at decoded
      · cases decoded
      · rename_i op known
        dsimp only at decoded
        split at decoded
        · cases decoded
          rw [toList_extract_cons found ahead, Instr.encode, Instr.opcode_ofOperand,
            Instr.operand_ofOperand (length_operand_bytes inside),
            Opcode.ofByte?_eq_some_iff.mp known]
        · cases decoded
  · rintro ⟨inside, behind, bytes⟩
    have positive : 0 < i.encodedLength := Nat.lt_of_lt_of_le Nat.one_pos (Nat.le_add_right _ _)
    have ahead : offset < code.size := by omega
    have found : code[offset]? = some code[offset] := Array.getElem?_eq_getElem ahead
    rw [toList_extract_cons found (by omega), Instr.encode, List.cons.injEq] at bytes
    obtain ⟨first, rest⟩ := bytes
    have width : offset + 1 + i.opcode.operandWidth = next := by
      rw [behind, Instr.encodedLength]
      omega
    have same := i.ofOperand_operand []
    rw [List.append_nil] at same
    unfold decode
    rw [found, first]
    simp only [Opcode.ofByte?_byte, width, inside, ↓reduceIte, rest, same]

theorem decode_eq_error_iff {e : Fault} :
    code.decode offset = .error e ↔
      (code.size ≤ offset ∧ e = .offsetOutOfRange offset code.size) ∨
      (∃ byte, code[offset]? = some byte ∧ (∀ op : Opcode, op.byte ≠ byte) ∧
        e = .invalidOpcode byte) ∨
      ∃ op : Opcode, code[offset]? = some op.byte ∧ code.size < offset + 1 + op.operandWidth ∧
        e = .truncatedOperand op.byte offset := by
  constructor
  · intro failed
    unfold decode at failed
    split at failed
    · rename_i outside
      cases failed
      exact .inl ⟨Array.getElem?_eq_none_iff.mp outside, rfl⟩
    · rename_i byte found
      split at failed
      · rename_i unknown
        cases failed
        refine .inr (.inl ⟨byte, found, ?_, rfl⟩)
        intro op same
        rw [Opcode.ofByte?_eq_some_iff.mpr same] at unknown
        cases unknown
      · rename_i op known
        dsimp only at failed
        split at failed
        · cases failed
        · rename_i short
          cases failed
          have same : op.byte = byte := Opcode.ofByte?_eq_some_iff.mp known
          subst same
          exact .inr (.inr ⟨op, found, by omega, rfl⟩)
  · rintro (⟨outside, rfl⟩ | ⟨byte, found, unknown, rfl⟩ | ⟨op, found, short, rfl⟩)
    · simp only [decode, Array.getElem?_eq_none outside]
    · cases known : Opcode.ofByte? byte with
      | none => simp only [decode, found, known]
      | some op => exact absurd (Opcode.ofByte?_eq_some_iff.mp known) (unknown op)
    · simp only [decode, found, Opcode.ofByte?_byte, if_neg (Nat.not_le.mpr short)]

/-- Decoding accepts the bytes of an instruction and nothing else, and has one complaint about every
other offset. There are 45 operations. In code that a 64-bit machine can hold the offsets do not
overflow, and of an operand nothing is read but its own bytes. -/
theorem decode_accepts_the_encodings (code : Code) (offset : Nat) :
    (∀ i next, code.decode offset = .ok (i, next) ↔
      next ≤ code.size ∧ next = offset + i.encodedLength ∧
        (code.extract offset next).toList = i.encode) ∧
    (∀ e, code.decode offset = .error e ↔
      (code.size ≤ offset ∧ e = .offsetOutOfRange offset code.size) ∨
      (∃ byte, code[offset]? = some byte ∧ (∀ op : Opcode, op.byte ≠ byte) ∧
        e = .invalidOpcode byte) ∨
      ∃ op : Opcode, code[offset]? = some op.byte ∧ code.size < offset + 1 + op.operandWidth ∧
        e = .truncatedOperand op.byte offset) ∧
    (Opcode.all.length = 45 ∧ (Opcode.all.map Opcode.byte).Nodup ∧ ∀ op, op ∈ Opcode.all) ∧
    (offset < code.size → code.size < 2 ^ 63 →
      ∀ op : Opcode, offset + 1 + op.operandWidth < 2 ^ 64) ∧
    (∀ (op : Opcode) (beyond : List UInt8), offset + 1 + op.operandWidth ≤ code.size →
      let operand := (code.extract (offset + 1) (offset + 1 + op.operandWidth)).toList
      operand.length = op.operandWidth ∧
        Instr.ofOperand op (operand ++ beyond) = Instr.ofOperand op operand) := by
  refine ⟨fun i next => decode_eq_ok_iff, fun e => decode_eq_error_iff,
    ⟨rfl, by decide, Opcode.mem_all⟩, ?_, ?_⟩
  · intro inside small op
    have width := op.operandWidth_le
    omega
  · intro op beyond inside
    have width := length_operand_bytes inside
    exact ⟨width, Instr.ofOperand_append width beyond⟩

end Code

end StackMachine
