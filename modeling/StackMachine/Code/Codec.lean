import StackMachine.Instr
import StackMachine.Code.Bytes

namespace StackMachine

abbrev Code := Array UInt8

namespace Instr

def operand : Instr → List UInt8
  | push n => littleEndian 4 n.toUInt32.toNat
  | pushLong n => littleEndian 8 n.toUInt64.toNat
  | pushFloat x => littleEndian 8 x.bits.toNat
  | pick n | jump n | branch _ n | new _ n | getField n | setField n => littleEndian 4 n.toNat
  | call target argc => littleEndian 4 target.toNat ++ [argc]
  | ret n | load n | store n => [n]
  | _ => []

def encode (i : Instr) : List UInt8 := i.opcode.byte :: i.operand

def encodedLength (i : Instr) : Nat := 1 + i.opcode.operandWidth

/-- The instruction with this operation and these bytes as its immediate operands, of which there
have to be `operandWidth` many. -/
def ofOperand (op : Opcode) (bytes : List UInt8) : Instr :=
  let word := UInt32.ofNat (ofLittleEndian (bytes.take 4))
  let long := UInt64.ofNat (ofLittleEndian bytes)
  let byte := bytes.headD 0
  match op with
  | .nop => nop
  | .halt => halt
  | .push => push word.toInt32
  | .pushLong => pushLong long.toInt64
  | .pushFloat => pushFloat ⟨long⟩
  | .pushNull => pushNull
  | .pop => pop
  | .dup => dup
  | .swap => swap
  | .pick => pick word
  | .add => arith .add
  | .sub => arith .sub
  | .mul => arith .mul
  | .div => arith .div
  | .mod => arith .mod
  | .neg => neg
  | .and => bitwise .and
  | .or => bitwise .or
  | .xor => bitwise .xor
  | .shl => bitwise .shl
  | .shr => bitwise .shr
  | .eq => eq
  | .ne => ne
  | .lt => order .lt
  | .le => order .le
  | .gt => order .gt
  | .ge => order .ge
  | .not => not
  | .intToFloat => intToFloat
  | .floatToInt => floatToInt
  | .jump => jump word
  | .jumpIfZero => branch false word
  | .jumpIfNonzero => branch true word
  | .call => call word (bytes.getD 4 0)
  | .ret => ret byte
  | .load => load byte
  | .store => store byte
  | .newRecord => new .record word
  | .newBytes => new .bytes word
  | .getField => getField word
  | .setField => setField word
  | .getIndex => getIndex
  | .setIndex => setIndex
  | .len => len
  | .free => free

def assemble? (op : Opcode) (args : List Int) : Option Instr :=
  let kinds := op.immediates
  if args.length = kinds.length ∧ (kinds.zip args).all fun (k, z) => k.fits z then
    let bytes := (kinds.zip args).flatMap fun (k, z) =>
      littleEndian k.width (z % (Nat.pow 256 k.width : Nat)).toNat
    some (ofOperand op bytes)
  else none

end Instr

namespace Code

def encode (program : List Instr) : Code := (program.flatMap Instr.encode).toArray

def checkOffset (code : Code) (offset : Nat) : Except Fault Unit :=
  if offset < code.size then .ok () else .error (.offsetOutOfRange offset code.size)

def decode (code : Code) (offset : Nat) : Except Fault (Instr × Nat) :=
  match code[offset]? with
  | none => .error (.offsetOutOfRange offset code.size)
  | some byte =>
    match Opcode.ofByte? byte with
    | none => .error (.invalidOpcode byte)
    | some op =>
      let start := offset + 1
      let next := start + op.operandWidth
      if next ≤ code.size then .ok (.ofOperand op (code.extract start next).toList, next)
      else .error (.truncatedOperand byte offset)

theorem lt_of_decode {code : Code} {offset next : Nat} {i : Instr}
    (decoded : code.decode offset = .ok (i, next)) : offset < next := by
  unfold decode at decoded
  split at decoded
  · cases decoded
  · split at decoded
    · cases decoded
    · dsimp only at decoded
      split at decoded
      · cases decoded
        omega
      · cases decoded

def decodeFrom (code : Code) (offset : Nat) : Except Fault (List (Nat × Instr)) :=
  if offset < code.size then
    match _ : code.decode offset with
    | .error e => .error e
    | .ok (i, next) => (code.decodeFrom next).map ((offset, i) :: ·)
  else .ok []
termination_by code.size - offset
decreasing_by
  have forward := lt_of_decode ‹code.decode offset = .ok (i, next)›
  omega

def instructions (code : Code) : Except Fault (List (Nat × Instr)) := code.decodeFrom 0

end Code

end StackMachine
