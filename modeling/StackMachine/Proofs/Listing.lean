import StackMachine.Proofs.Codec
import StackMachine.Proofs.Characters

namespace StackMachine

section Text

theorem Decimal.newline_notMem_ofScaled (n : Nat) (e : Int) :
    '\n' ∉ (Decimal.ofScaled n e).digits := by
  intro member
  have reversed := List.mem_reverse.mp member
  have digit := List.mem_reverse.mp ((List.dropWhile_sublist _).mem reversed)
  exact notMem_toDigits rfl n digit

theorem Decimal.newline_notMem_shortest (x : Binary64) : '\n' ∉ (Decimal.shortest x).digits := by
  unfold Decimal.shortest
  split
  · decide
  · dsimp only
    cases found : (List.range 17).findSome? fun n : Nat =>
        ((Interval.of x).nearest? ((Interval.of x).magnitude - 1 - (n : Int))).map
          (ofScaled · ((Interval.of x).magnitude - 1 - (n : Int))) with
    | none =>
      rw [Option.getD_none, Decimal.exact]
      split
      · exact newline_notMem_ofScaled _ _
      · exact newline_notMem_ofScaled _ _
    | some d =>
      obtain ⟨n, _, some⟩ := List.exists_of_findSome?_eq_some found
      obtain ⟨k, _, rfl⟩ := Option.map_eq_some_iff.mp some
      exact newline_notMem_ofScaled _ _

theorem Decimal.newline_notMem_layout (style : Style) {d : Decimal} (digits : '\n' ∉ d.digits) :
    '\n' ∉ style.layout d := by
  have before (n : Nat) : '\n' ∉ d.digits.take n :=
    fun member => digits (List.mem_of_mem_take member)
  have behind (n : Nat) : '\n' ∉ d.digits.drop n :=
    fun member => digits (List.mem_of_mem_drop member)
  unfold Style.layout
  split
  · unfold positionalText
    split
    · simp [zeros, digits]
    · split
      · simp [before, behind]
      · split <;> simp [zeros, digits]
  · have fraction := behind 1
    simp only [exponentText]
    split <;> simp_all

@[simp] theorem Binary64.newline_notMem_text (style : Decimal.Style) (x : Binary64) :
    '\n' ∉ (x.text style).toList := by
  have body := Decimal.newline_notMem_layout style (Decimal.newline_notMem_shortest x)
  unfold Binary64.text
  split
  · decide
  · dsimp only
    split <;> split <;> simp [body]

@[simp] theorem Instr.newline_notMem_text (i : Instr) : '\n' ∉ i.text.toList := by
  have operand : '\n' ∉ i.operandText.toList := by
    cases i with
    | _ => simp [operandText]
  simp [text, mnemonic, operand]

end Text

namespace Code

variable {code : Code} {offset next : Nat} {i : Instr} {e : Fault} {program other : List Instr}
  {before rest tail : List UInt8}

@[simp] theorem toList_encode_nil : (Code.encode []).toList = [] := rfl

@[simp] theorem toList_encode_cons (i : Instr) (program : List Instr) :
    (Code.encode (i :: program)).toList = i.encode ++ (Code.encode program).toList := by
  simp [Code.encode]

theorem size_encode (program : List Instr) :
    (Code.encode program).size = (program.map Instr.encodedLength).sum := by
  induction program with
  | nil => rfl
  | cons i rest ih =>
    rw [← Array.length_toList] at ih ⊢
    rw [toList_encode_cons, List.length_append, Instr.length_encode, ih]
    rfl

theorem size_encode_cons (i : Instr) (program : List Instr) :
    (Code.encode (i :: program)).size = i.encodedLength + (Code.encode program).size := by
  rw [size_encode, size_encode]
  rfl

def placed : Nat → List Instr → List (Nat × Instr)
  | _, [] => []
  | offset, i :: rest => (offset, i) :: placed (offset + i.encodedLength) rest

theorem map_listingLine_placed (offset : Nat) (program : List Instr) :
    (placed offset program).map listingLine = program.mapIdx fun k i =>
      listingLine (offset + ((program.take k).map Instr.encodedLength).sum, i) := by
  induction program generalizing offset with
  | nil => rfl
  | cons i rest ih =>
    rw [placed, List.map_cons, ih, List.mapIdx_cons]
    simp [Nat.add_assoc]

theorem decodeFrom_end (outside : code.size ≤ offset) : code.decodeFrom offset = .ok [] := by
  rw [decodeFrom, if_neg (Nat.not_lt.mpr outside)]

theorem decodeFrom_error (inside : offset < code.size) (failed : code.decode offset = .error e) :
    code.decodeFrom offset = .error e := by
  rw [decodeFrom, if_pos inside]
  split
  · rename_i found
    rw [failed] at found
    cases found
    rfl
  · rename_i found
    rw [failed] at found
    cases found

theorem decodeFrom_next (decoded : code.decode offset = .ok (i, next)) :
    code.decodeFrom offset = (code.decodeFrom next).map ((offset, i) :: ·) := by
  have inside : offset < code.size :=
    Nat.lt_of_lt_of_le (lt_of_decode decoded) (decode_next decoded).2
  rw [decodeFrom, if_pos inside]
  split
  · rename_i found
    rw [decoded] at found
    cases found
  · rename_i found
    rw [decoded] at found
    cases found
    rfl

theorem decode_of_append (whole : code.toList = before ++ (i.encode ++ rest)) :
    code.decode before.length = .ok (i, before.length + i.encodedLength) := by
  have length := i.length_encode
  have bytes :
      (code.extract before.length (before.length + i.encodedLength)).toList = i.encode := by
    rw [Array.toList_extract, List.extract_eq_take_drop, whole, List.drop_left,
      Nat.add_sub_cancel_left, List.take_left' length]
  have inside : before.length + i.encodedLength ≤ code.size := by
    rw [← Array.length_toList, whole, List.length_append, List.length_append]
    omega
  exact decode_eq_ok_iff.mpr ⟨inside, rfl, bytes⟩

theorem decodeFrom_append (before : List UInt8)
    (whole : code.toList = before ++ ((Code.encode program).toList ++ rest)) :
    code.decodeFrom before.length =
      (code.decodeFrom (before.length + (Code.encode program).size)).map
        (placed before.length program ++ ·) := by
  induction program generalizing before with
  | nil =>
    change code.decodeFrom before.length = (code.decodeFrom before.length).map ([] ++ ·)
    cases code.decodeFrom before.length <;> rfl
  | cons i later ih =>
    rw [toList_encode_cons, List.append_assoc] at whole
    have length : (before ++ i.encode).length = before.length + i.encodedLength := by
      rw [List.length_append, i.length_encode]
    have after := ih (before ++ i.encode) (whole.trans (List.append_assoc _ _ _).symm)
    rw [length] at after
    rw [decodeFrom_next (decode_of_append whole), after, size_encode_cons, ← Nat.add_assoc]
    cases code.decodeFrom (before.length + i.encodedLength + (Code.encode later).size) <;> rfl

/-- No instruction begins at the offset, where `rest` is what is left of the code. -/
def Stuck (code : Code) (offset : Nat) (rest : List UInt8) : Prop :=
  rest ≠ [] → ∃ e, code.decode offset = .error e

theorem take_next (decoded : code.decode offset = .ok (i, next)) :
    code.toList.take next = code.toList.take offset ++ i.encode := by
  obtain ⟨_, behind, bytes⟩ := decode_eq_ok_iff.mp decoded
  rw [Array.toList_extract, List.extract_eq_take_drop] at bytes
  have length : next = offset + (next - offset) := by omega
  rw [length, List.take_add, bytes]

theorem exists_program (inside : offset ≤ code.size) :
    ∃ program rest,
      code.toList = code.toList.take offset ++ ((Code.encode program).toList ++ rest) ∧
        code.Stuck (offset + (Code.encode program).size) rest := by
  induction offset using decodeFrom.induct code with
  | case1 offset _ e failed =>
    refine ⟨[], code.toList.drop offset, ?_, fun _ => ⟨e, failed⟩⟩
    exact (List.take_append_drop offset code.toList).symm
  | case2 offset _ i next decoded ih =>
    obtain ⟨behind, bound⟩ := decode_next decoded
    obtain ⟨program, rest, whole, stuck⟩ := ih bound
    refine ⟨i :: program, rest, ?_, ?_⟩
    · rw [toList_encode_cons, List.append_assoc, ← List.append_assoc, ← take_next decoded]
      exact whole
    · rw [size_encode_cons, ← Nat.add_assoc, ← behind]
      exact stuck
  | case3 offset outside =>
    refine ⟨[], [], ?_, fun nonempty => absurd rfl nonempty⟩
    have all : code.toList.length ≤ offset := Nat.not_lt.mp outside
    rw [List.take_of_length_le all]
    simp

theorem Stuck.not_cons (stuck : code.Stuck before.length rest)
    (whole : code.toList = before ++ rest)
    (again : code.toList = before ++ ((Code.encode (i :: other)).toList ++ tail)) : False := by
  rw [toList_encode_cons, List.append_assoc] at again
  have decoded := decode_of_append again
  have same : rest = i.encode ++ ((Code.encode other).toList ++ tail) :=
    List.append_cancel_left (whole.symm.trans again)
  have nonempty : rest ≠ [] := by
    rw [same, Instr.encode, List.cons_append]
    exact List.cons_ne_nil _ _
  obtain ⟨e, failed⟩ := stuck nonempty
  rw [decoded] at failed
  cases failed

/-- There is only one way to decode bytes as far as they can be decoded. -/
theorem program_unique (before : List UInt8)
    (whole : code.toList = before ++ ((Code.encode program).toList ++ rest))
    (again : code.toList = before ++ ((Code.encode other).toList ++ tail))
    (stuck : code.Stuck (before.length + (Code.encode program).size) rest)
    (stuckToo : code.Stuck (before.length + (Code.encode other).size) tail) :
    program = other ∧ rest = tail := by
  induction program generalizing before other with
  | nil =>
    cases other with
    | nil => exact ⟨rfl, List.append_cancel_left (whole.symm.trans again)⟩
    | cons j other => exact (Stuck.not_cons stuck whole again).elim
  | cons i program ih =>
    cases other with
    | nil => exact (Stuck.not_cons stuckToo again whole).elim
    | cons j other =>
      rw [toList_encode_cons, List.append_assoc] at whole again
      have first := decode_of_append whole
      rw [decode_of_append again] at first
      cases first
      have length : (before ++ i.encode).length = before.length + i.encodedLength := by
        rw [List.length_append, i.length_encode]
      rw [size_encode_cons, ← Nat.add_assoc, ← length] at stuck stuckToo
      rw [← List.append_assoc] at whole again
      obtain ⟨rfl, same⟩ := ih (before ++ i.encode) whole again stuck stuckToo
      exact ⟨rfl, same⟩

theorem encode_or_error (code : Code) :
    (∃ program, code = .encode program) ∨
    ∃ program byte rest e, code.toList = (Code.encode program).toList ++ byte :: rest ∧
      code.decode (Code.encode program).size = .error e := by
  obtain ⟨program, rest, whole, stuck⟩ := exists_program (Nat.zero_le code.size)
  rw [Nat.zero_add] at stuck
  cases rest with
  | nil => exact .inl ⟨program, Array.ext' (by simpa using whole)⟩
  | cons byte rest =>
    obtain ⟨e, failed⟩ := stuck (List.cons_ne_nil byte rest)
    exact .inr ⟨program, byte, rest, e, whole, failed⟩

theorem split_unique (whole : code.toList = (Code.encode program).toList ++ rest)
    (again : code.toList = (Code.encode other).toList ++ tail)
    (stuck : code.Stuck (Code.encode program).size rest)
    (stuckToo : code.Stuck (Code.encode other).size tail) : program = other ∧ rest = tail := by
  rw [← Nat.zero_add (Code.encode program).size] at stuck
  rw [← Nat.zero_add (Code.encode other).size] at stuckToo
  exact program_unique [] whole again stuck stuckToo

theorem instructions_append (whole : code.toList = (Code.encode program).toList ++ rest) :
    code.instructions =
      (code.decodeFrom (Code.encode program).size).map (placed 0 program ++ ·) := by
  have decoded := decodeFrom_append [] whole
  rwa [List.length_nil, Nat.zero_add] at decoded

theorem listing_encode (program : List Instr) :
    (Code.encode program).listing =
      .ok (String.join (program.mapIdx fun k i =>
        listingLine (((program.take k).map Instr.encodedLength).sum, i))) := by
  have whole : (Code.encode program).toList = (Code.encode program).toList ++ [] := by simp
  have lines := map_listingLine_placed 0 program
  simp only [Nat.zero_add] at lines
  rw [listing, instructions_append whole, decodeFrom_end (Nat.le_refl _)]
  simp only [Except.map, List.append_nil, lines]

theorem listing_of_error {byte : UInt8}
    (whole : code.toList = (Code.encode program).toList ++ byte :: rest)
    (failed : code.decode (Code.encode program).size = .error e) : code.listing = .error e := by
  have inside : (Code.encode program).size < code.size := by
    have sizes := congrArg List.length whole
    rw [List.length_append, Array.length_toList, Array.length_toList, List.length_cons] at sizes
    omega
  rw [listing, instructions_append whole, decodeFrom_error inside failed]
  rfl

theorem fault_of_split {byte : UInt8}
    (whole : code.toList = (Code.encode program).toList ++ byte :: rest)
    (failed : code.decode (Code.encode program).size = .error e) :
    e = .invalidOpcode byte ∨ e = .truncatedOperand byte (Code.encode program).size := by
  have here : code[(Code.encode program).size]? = some byte := by
    rw [← Array.getElem?_toList, whole, ← Array.length_toList]
    simp
  rcases decode_eq_error_iff.mp failed with
    ⟨outside, _⟩ | ⟨first, found, _, rfl⟩ | ⟨op, found, _, rfl⟩
  · rw [Array.getElem?_eq_none outside] at here
    cases here
  · rw [here] at found
    cases found
    exact .inl rfl
  · rw [here] at found
    cases found
    exact .inr rfl

/-- Bytes have a listing when they encode a program, which is then the only one. It has a line for
each instruction, which begins with the length of the code before it. Otherwise the listing fails as
decoding does at the end of the longest program that the bytes begin with. -/
theorem listing_inverts_encoding (code : Code) :
    (∀ text, code.listing = .ok text ↔ ∃ program, code = .encode program ∧
      text = String.join (program.mapIdx fun k i =>
        listingLine (((program.take k).map Instr.encodedLength).sum, i))) ∧
    (∀ program other, code = .encode program → code = .encode other → program = other) ∧
    (∀ offset i, ∃ numeral, listingLine (offset, i) = numeral ++ ": " ++ i.text ++ "\n" ∧
      Nat.ofDigitChars 10 numeral.toList 0 = offset ∧
        '\n' ∉ (numeral ++ ": " ++ i.text).toList) ∧
    (∀ e, code.listing = .error e → ∃ program byte rest,
      (code.toList = (Code.encode program).toList ++ byte :: rest ∧
        code.decode (Code.encode program).size = .error e) ∧
      (e = .invalidOpcode byte ∨ e = .truncatedOperand byte (Code.encode program).size) ∧
      ∀ other tail, tail ≠ [] → code.toList = (Code.encode other).toList ++ tail →
        code.decode (Code.encode other).size = .error e →
          other = program ∧ tail = byte :: rest) := by
  refine ⟨?_, ?_, ?_, ?_⟩
  · intro text
    constructor
    · intro listed
      rcases encode_or_error code with ⟨program, rfl⟩ | ⟨program, byte, rest, e, whole, failed⟩
      · rw [listing_encode] at listed
        cases listed
        exact ⟨program, rfl, rfl⟩
      · rw [listing_of_error whole failed] at listed
        cases listed
    · rintro ⟨program, rfl, rfl⟩
      exact listing_encode program
  · intro program other same again
    have encoded := congrArg Array.toList same
    have encodedToo := congrArg Array.toList again
    rw [← List.append_nil (Code.encode _).toList] at encoded encodedToo
    exact (split_unique encoded encodedToo (fun ended => absurd rfl ended)
      fun ended => absurd rfl ended).1
  · intro offset i
    refine ⟨paddedNumeral 4 offset, rfl, ofDigitChars_paddedNumeral 4 offset, ?_⟩
    simp
  · intro e listed
    rcases encode_or_error code with ⟨program, rfl⟩ | ⟨program, byte, rest, fault, whole, failed⟩
    · rw [listing_encode] at listed
      cases listed
    · rw [listing_of_error whole failed] at listed
      cases listed
      refine ⟨program, byte, rest, ⟨whole, failed⟩, fault_of_split whole failed, ?_⟩
      intro other tail _ again failedToo
      exact split_unique again whole (fun _ => ⟨_, failedToo⟩) fun _ => ⟨_, failed⟩

example : (Code.encode [.push 2, .push 3, .arith .add, .branch false 0, .halt]).listing =
    .ok "0000: PUSH 2\n0005: PUSH 3\n0010: ADD\n0011: JZ @0000\n0016: HALT\n" := by
  rw [listing_encode]
  decide

end Code

end StackMachine
