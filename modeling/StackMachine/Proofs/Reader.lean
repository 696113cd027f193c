import StackMachine.Proofs.Listing

namespace StackMachine

section Words

def readNumber (word : List Char) : Int :=
  match word with
  | '-' :: digits => -(Nat.ofDigitChars 10 digits 0 : Int)
  | '@' :: digits => Nat.ofDigitChars 10 digits 0
  | digits => Nat.ofDigitChars 10 digits 0

theorem readNumber_toDigits (n : Nat) : readNumber (Nat.toDigits 10 n) = n := by
  unfold readNumber
  split
  · rename_i digits signed
    have sign : '-' ∈ Nat.toDigits 10 n := by rw [signed]; exact List.mem_cons_self
    exact absurd sign (notMem_toDigits (by decide) n)
  · rename_i digits marked
    have mark : '@' ∈ Nat.toDigits 10 n := by rw [marked]; exact List.mem_cons_self
    exact absurd mark (notMem_toDigits (by decide) n)
  · rw [Nat.ofDigitChars_toDigits (by decide) (by decide)]

theorem readNumber_repr (z : Int) : readNumber z.repr.toList = z := by
  cases z with
  | ofNat n =>
    rw [Int.repr, Nat.toList_repr]
    exact readNumber_toDigits n
  | negSucc n =>
    rw [Int.repr, String.toList_append, Nat.toList_repr]
    have value := Nat.ofDigitChars_toDigits (b := 10) (n := n + 1) (by decide) (by decide)
    exact congrArg (fun k : Nat => -(k : Int)) value

theorem readNumber_target (n : Nat) : readNumber ("@" ++ paddedNumeral 4 n).toList = n := by
  rw [String.toList_append]
  exact congrArg Int.ofNat (ofDigitChars_paddedNumeral 4 n)

end Words

theorem Opcode.ofMnemonic?_mnemonic (op : Opcode) : ofMnemonic? op.mnemonic = some op := by
  have known : (ofMnemonic? op.mnemonic).isSome = true :=
    List.find?_isSome.mpr ⟨op, op.mem_all, beq_self_eq_true _⟩
  obtain ⟨other, found⟩ := Option.isSome_iff_exists.mp known
  have same : other.mnemonic = op.mnemonic := by simpa using List.find?_some found
  rw [found, mnemonic_injective same]

namespace Immediate

/-- An integer is in the range of an immediate operand, and written as these bytes. -/
def Writes (k : Immediate) (z : Int) (bytes : List UInt8) : Prop :=
  k.fits z = true ∧ littleEndian k.width (z % (Nat.pow 256 k.width : Nat)).toNat = bytes

theorem writes_of_pattern {k : Immediate} {z : Int} {n : Nat} (fits : k.fits z = true)
    (bound : n < 256 ^ k.width) (pattern : z = n ∨ z = (n : Int).bmod (256 ^ k.width)) :
    k.Writes z (littleEndian k.width n) := by
  have residue : z % (256 ^ k.width : Nat) = n % (256 ^ k.width : Nat) := by
    rcases pattern with rfl | rfl
    · rfl
    · exact Int.bmod_emod
  have reduced : (z % (256 ^ k.width : Nat)).toNat = n := by
    rw [residue, ← Int.natCast_emod, Int.toNat_natCast, Nat.mod_eq_of_lt bound]
  exact ⟨fits, congrArg (littleEndian k.width) reduced⟩

theorem toNat_lt_pow {k : Immediate} (word : BitVec (8 * k.width)) :
    word.toNat < 256 ^ k.width := by
  have bound := word.isLt
  rwa [Nat.pow_mul] at bound

theorem writes_signed (k : Immediate) (signed : k = int32 ∨ k = int64)
    (word : BitVec (8 * k.width)) : k.Writes word.toInt (littleEndian k.width word.toNat) := by
  have low := word.le_toInt
  have high := word.toInt_lt
  refine writes_of_pattern ?_ (toNat_lt_pow word) (.inr ?_)
  · generalize word.toInt = z at low high ⊢
    rcases signed with rfl | rfl
    · simp only [fits, width, Bool.and_eq_true, decide_eq_true_eq] at low high ⊢
      omega
    · simp only [fits, width, Bool.and_eq_true, decide_eq_true_eq] at low high ⊢
      omega
  · rw [word.toInt_eq_toNat_bmod, Nat.pow_mul]

theorem writes_unsigned (k : Immediate) (unsigned : k ≠ int32 ∧ k ≠ int64)
    (word : BitVec (8 * k.width)) : k.Writes word.toNat (littleEndian k.width word.toNat) := by
  have bound := toNat_lt_pow word
  refine writes_of_pattern ?_ bound (.inl rfl)
  generalize word.toNat = n at bound ⊢
  cases k with
  | int32 => exact absurd rfl unsigned.1
  | int64 => exact absurd rfl unsigned.2
  | float64 | uint32 | uint8 =>
    simp only [fits, width, Bool.and_eq_true, decide_eq_true_eq] at bound ⊢
    omega

theorem writes_int32 (n : Int32) : int32.Writes n.toInt (littleEndian 4 n.toUInt32.toNat) :=
  writes_signed int32 (.inl rfl) n.toBitVec

theorem writes_int64 (n : Int64) : int64.Writes n.toInt (littleEndian 8 n.toUInt64.toNat) :=
  writes_signed int64 (.inr rfl) n.toBitVec

theorem writes_float64 (x : Binary64) :
    float64.Writes x.bits.toNat (littleEndian 8 x.bits.toNat) :=
  writes_unsigned float64 (by decide) x.bits.toBitVec

theorem writes_uint32 (n : UInt32) : uint32.Writes n.toNat (littleEndian 4 n.toNat) :=
  writes_unsigned uint32 (by decide) n.toBitVec

theorem writes_uint8 (n : UInt8) : uint8.Writes n.toNat [n] := by
  have byte : littleEndian 1 n.toNat = [n] := by
    rw [littleEndian, littleEndian, UInt8.ofNat_toNat]
  rw [← byte]
  exact writes_unsigned uint8 (by decide) n.toBitVec

end Immediate

namespace Instr

theorem assemble?_one {op : Opcode} {k : Immediate} {z : Int} {bytes : List UInt8}
    (takes : op.immediates = [k]) (writes : k.Writes z bytes) :
    assemble? op [z] = some (ofOperand op bytes) := by
  obtain ⟨fits, rfl⟩ := writes
  simp [assemble?, takes, fits]

theorem assemble?_two {op : Opcode} {k l : Immediate} {y z : Int} {first second : List UInt8}
    (takes : op.immediates = [k, l]) (writes : k.Writes y first) (also : l.Writes z second) :
    assemble? op [y, z] = some (ofOperand op (first ++ second)) := by
  obtain ⟨fits, rfl⟩ := writes
  obtain ⟨fitsToo, rfl⟩ := also
  simp [assemble?, takes, fits, fitsToo]

def arguments : Instr → List Int
  | push n => [n.toInt]
  | pushLong n => [n.toInt]
  | pushFloat x => [x.bits.toNat]
  | pick n | jump n | branch _ n | new _ n | getField n | setField n => [n.toNat]
  | call target argc => [target.toNat, argc.toNat]
  | ret n | load n | store n => [n.toNat]
  | _ => []

theorem assemble?_arguments (i : Instr) : assemble? i.opcode i.arguments = some i := by
  have whole := i.ofOperand_operand []
  rw [List.append_nil] at whole
  rw [← congrArg some whole]
  cases i with
  | push n => exact assemble?_one rfl (Immediate.writes_int32 n)
  | pushLong n => exact assemble?_one rfl (Immediate.writes_int64 n)
  | pushFloat x => exact assemble?_one rfl (Immediate.writes_float64 x)
  | pick n | jump n | getField n | setField n => exact assemble?_one rfl (Immediate.writes_uint32 n)
  | branch sense target => cases sense <;> exact assemble?_one rfl (Immediate.writes_uint32 target)
  | new kind size => cases kind <;> exact assemble?_one rfl (Immediate.writes_uint32 size)
  | call target argc =>
    exact assemble?_two rfl (Immediate.writes_uint32 target) (Immediate.writes_uint8 argc)
  | ret n | load n | store n => exact assemble?_one rfl (Immediate.writes_uint8 n)
  | arith op | bitwise op | order op => cases op <;> rfl
  | _ => rfl

def operandWords : Instr → List String
  | push n => [n.toInt.repr]
  | pushLong n => [n.toInt.repr]
  | pushFloat x => [x.text floatStyle]
  | pick n | new _ n | getField n | setField n => [n.toNat.repr]
  | jump target | branch _ target => ["@" ++ paddedNumeral 4 target.toNat]
  | call target argc => ["@" ++ paddedNumeral 4 target.toNat, argc.toNat.repr]
  | ret n | load n | store n => [n.toNat.repr]
  | _ => []

theorem toList_text (i : Instr) :
    i.text.toList = [' '].intercalate (i.mnemonic.toList :: i.operandWords.map String.toList) := by
  cases i with
  | _ => simp [text, operandText, operandWords, List.intercalate]

section

variable {i : Instr} (plain : i.opcode ≠ .pushFloat)
include plain

theorem space_notMem_operandWords {word : List Char}
    (member : word ∈ i.operandWords.map String.toList) : ' ' ∉ word := by
  revert word
  cases i with
  | pushFloat x => exact absurd rfl plain
  | _ => simp [operandWords]

theorem readNumber_operandWords :
    (i.operandWords.map String.toList).map readNumber = i.arguments := by
  cases i with
  | pushFloat x => exact absurd rfl plain
  | _ => simp only [operandWords, arguments, List.map_cons, List.map_nil, Nat.toList_repr,
      readNumber_toDigits, readNumber_repr, readNumber_target]

end

end Instr

/-- The instruction on a line of a listing. The first word of the line is the offset. -/
def readLine? (line : List Char) : Option Instr :=
  match line.splitOn ' ' with
  | _ :: name :: operands => do
    let op ← Opcode.ofMnemonic? (String.ofList name)
    Instr.assemble? op (operands.map readNumber)
  | _ => none

def readListing (text : String) : List Instr := (text.toList.splitOn '\n').filterMap readLine?

theorem splitOn_listing_line (offset : Nat) {i : Instr} (plain : i.opcode ≠ .pushFloat) :
    (paddedNumeral 4 offset ++ ": " ++ i.text).toList.splitOn ' ' =
      (paddedNumeral 4 offset ++ ":").toList :: i.mnemonic.toList ::
        i.operandWords.map String.toList := by
  have spaced : (paddedNumeral 4 offset ++ ": " ++ i.text).toList =
      [' '].intercalate ((paddedNumeral 4 offset ++ ":").toList :: i.mnemonic.toList ::
        i.operandWords.map String.toList) := by
    rw [List.intercalate_cons_cons, ← Instr.toList_text]
    simp
  rw [spaced]
  refine List.splitOn_intercalate ' ' ?_ (List.cons_ne_nil _ _)
  intro word member
  rw [List.mem_cons, List.mem_cons] at member
  rcases member with first | second | operand
  · rw [first]
    simp
  · rw [second]
    exact i.opcode.notMem_mnemonic rfl
  · exact Instr.space_notMem_operandWords plain operand

theorem readLine?_listing_line (offset : Nat) {i : Instr} (plain : i.opcode ≠ .pushFloat) :
    readLine? (paddedNumeral 4 offset ++ ": " ++ i.text).toList = some i := by
  have known : Opcode.ofMnemonic? (String.ofList i.mnemonic.toList) = some i.opcode := by
    rw [String.ofList_toList]
    exact i.opcode.ofMnemonic?_mnemonic
  rw [readLine?, splitOn_listing_line offset plain]
  simp only [known, Instr.readNumber_operandWords plain, Option.bind_eq_bind, Option.bind_some]
  exact i.assemble?_arguments

namespace Code

variable {code : Code} {entries : List (Nat × Instr)} {program : List Instr}

def listingRow (entry : Nat × Instr) : List Char :=
  (paddedNumeral 4 entry.1 ++ ": " ++ entry.2.text).toList

theorem toList_listingLine (entry : Nat × Instr) :
    (listingLine entry).toList = listingRow entry ++ ['\n'] := String.toList_append

theorem newline_notMem_listingRow (entry : Nat × Instr) : '\n' ∉ listingRow entry := by
  simp [listingRow]

theorem toList_join_listingLine (entries : List (Nat × Instr)) :
    (String.join (entries.map listingLine)).toList =
      ['\n'].intercalate (entries.map listingRow ++ [[]]) := by
  induction entries with
  | nil => rfl
  | cons entry rest ih =>
    have nonempty : rest.map listingRow ++ [[]] ≠ [] := by simp
    obtain ⟨row, rows, split⟩ := List.exists_cons_of_ne_nil nonempty
    rw [List.map_cons, List.map_cons, List.cons_append, split, List.intercalate_cons_cons, ← split,
      ← ih, String.toList_join, String.toList_join, List.flatMap_cons, toList_listingLine]

theorem splitOn_join_listingLine (entries : List (Nat × Instr)) :
    (String.join (entries.map listingLine)).toList.splitOn '\n' =
      entries.map listingRow ++ [[]] := by
  rw [toList_join_listingLine]
  -- Each line ends in a newline, so behind the last of them an empty piece is left.
  refine List.splitOn_intercalate '\n' ?_ (by simp)
  intro row member
  rcases List.mem_append.mp member with listed | last
  · obtain ⟨entry, _, rfl⟩ := List.mem_map.mp listed
    exact newline_notMem_listingRow entry
  · rw [List.mem_singleton.mp last]
    exact List.not_mem_nil

theorem filterMap_readLine?_listingRow (plain : ∀ entry ∈ entries, entry.2.opcode ≠ .pushFloat) :
    (entries.map listingRow).filterMap readLine? = entries.map Prod.snd := by
  induction entries with
  | nil => rfl
  | cons entry rest ih =>
    have first : readLine? (listingRow entry) = some entry.2 :=
      readLine?_listing_line entry.1 (plain entry List.mem_cons_self)
    rw [List.map_cons, List.filterMap_cons, first, List.map_cons,
      ih fun other member => plain other (List.mem_cons_of_mem _ member)]

theorem readListing_of_instructions (decoded : code.instructions = .ok entries)
    (plain : ∀ entry ∈ entries, entry.2.opcode ≠ .pushFloat) :
    code.listing.map readListing = .ok (entries.map Prod.snd) := by
  have last : [[]].filterMap readLine? = [] := rfl
  rw [listing, decoded, Except.map, Except.map, readListing, splitOn_join_listingLine,
    List.filterMap_append, filterMap_readLine?_listingRow plain, last, List.append_nil]

theorem map_snd_placed (offset : Nat) (program : List Instr) :
    (placed offset program).map Prod.snd = program := by
  induction program generalizing offset with
  | nil => rfl
  | cons i rest ih => rw [placed, List.map_cons, ih]

theorem instructions_encode (program : List Instr) :
    (Code.encode program).instructions = .ok (placed 0 program) := by
  have whole : (Code.encode program).toList = (Code.encode program).toList ++ [] := by simp
  rw [instructions_append whole, decodeFrom_end (Nat.le_refl _), Except.map, List.append_nil]

theorem eq_encode_of_instructions (decoded : code.instructions = .ok entries) :
    code = .encode (entries.map Prod.snd) := by
  rcases encode_or_error code with ⟨program, rfl⟩ | ⟨program, byte, rest, e, whole, failed⟩
  · rw [instructions_encode] at decoded
    cases decoded
    rw [map_snd_placed]
  · have unlisted := listing_of_error whole failed
    rw [listing, decoded] at unlisted
    cases unlisted

theorem readListing_encode (plain : ∀ i ∈ program, i.opcode ≠ .pushFloat) :
    (Code.encode program).listing.map readListing = .ok program := by
  have listed : ∀ entry ∈ placed 0 program, entry.2.opcode ≠ .pushFloat := by
    intro entry member
    refine plain entry.2 ?_
    rw [← map_snd_placed 0 program]
    exact List.mem_map_of_mem member
  rw [readListing_of_instructions (instructions_encode program) listed, map_snd_placed]

/-- Bytes with the same listing are the same, if there is no floating-point operand among their
instructions. So the listing of such a program is that of no other. -/
theorem listing_is_lossless :
    (∀ (x y : Code) (text : String) (xs ys : List (Nat × Instr)),
      x.listing = .ok text → y.listing = .ok text →
      x.instructions = .ok xs → y.instructions = .ok ys →
      (∀ entry ∈ xs, entry.2.opcode ≠ .pushFloat) →
      (∀ entry ∈ ys, entry.2.opcode ≠ .pushFloat) → x = y) ∧
    Set.InjOn (fun program => (Code.encode program).listing)
      {program | ∀ i ∈ program, i.opcode ≠ .pushFloat} := by
  constructor
  · intro x y text xs ys listed listedToo decoded decodedToo plain plainToo
    have read := readListing_of_instructions decoded plain
    have readToo := readListing_of_instructions decodedToo plainToo
    rw [listed] at read
    rw [listedToo, read] at readToo
    rw [eq_encode_of_instructions decoded, Except.ok.inj readToo,
      ← eq_encode_of_instructions decodedToo]
  · intro program plain other plainToo same
    have read := readListing_encode plain
    dsimp only at same
    rw [same, readListing_encode plainToo] at read
    exact (Except.ok.inj read).symm

theorem listing_shows_call_and_push :
    (Code.encode [.call 16 2, .push (-1)]).listing = .ok "0000: CALL @0016 2\n0006: PUSH -1\n" ∧
    (∀ y ys, Code.listing y = .ok "0000: CALL @0016 2\n0006: PUSH -1\n" →
      y.instructions = .ok ys → (∀ entry ∈ ys, entry.2.opcode ≠ .pushFloat) →
        y = #[0x33, 16, 0, 0, 0, 2, 0x02, 255, 255, 255, 255]) ∧
    (Code.encode [.push 1]).listing ≠ (Code.encode [.pushLong 1]).listing := by
  have listed : (Code.encode [.call 16 2, .push (-1)]).listing =
      .ok "0000: CALL @0016 2\n0006: PUSH -1\n" := by
    rw [listing_encode]
    decide
  have bytes : Code.encode [.call 16 2, .push (-1)] =
      #[0x33, 16, 0, 0, 0, 2, 0x02, 255, 255, 255, 255] := by decide +kernel
  obtain ⟨same, injective⟩ := listing_is_lossless
  refine ⟨listed, ?_, ?_⟩
  · intro y ys listedToo decoded plain
    rw [← bytes]
    exact same y _ _ ys _ listedToo listed decoded (instructions_encode _) plain (by decide)
  · exact injective.ne (by decide) (by decide) (by decide)

end Code

end StackMachine
