namespace StackMachine

inductive Immediate where
  | int32
  | int64
  | float64
  | uint32
  | uint8
deriving DecidableEq, Repr

def Immediate.width : Immediate → Nat
  | int32 | uint32 => 4
  | int64 | float64 => 8
  | uint8 => 1

/-- Whether an integer can be written as an immediate operand. A floating-point one is given by its
bit pattern. -/
def Immediate.fits (k : Immediate) (z : Int) : Bool :=
  match k with
  | int32 => decide (-0x80000000 ≤ z) && decide (z < 0x80000000)
  | int64 => decide (-0x8000000000000000 ≤ z) && decide (z < 0x8000000000000000)
  | float64 => decide (0 ≤ z) && decide (z < 0x10000000000000000)
  | uint32 => decide (0 ≤ z) && decide (z < 0x100000000)
  | uint8 => decide (0 ≤ z) && decide (z < 0x100)

inductive Opcode where
  | nop
  | halt
  | push
  | pushLong
  | pushFloat
  | pushNull
  | pop
  | dup
  | swap
  | pick
  | add
  | sub
  | mul
  | div
  | mod
  | neg
  | and
  | or
  | xor
  | shl
  | shr
  | eq
  | ne
  | lt
  | le
  | gt
  | ge
  | not
  | intToFloat
  | floatToInt
  | jump
  | jumpIfZero
  | jumpIfNonzero
  | call
  | ret
  | load
  | store
  | newRecord
  | newBytes
  | getField
  | setField
  | getIndex
  | setIndex
  | len
  | free
deriving DecidableEq, Repr

namespace Opcode

def all : List Opcode :=
  [nop, halt, push, pushLong, pushFloat, pushNull, pop, dup, swap, pick,
    add, sub, mul, div, mod, neg, and, or, xor, shl, shr,
    eq, ne, lt, le, gt, ge, not, intToFloat, floatToInt,
    jump, jumpIfZero, jumpIfNonzero, call, ret, load, store,
    newRecord, newBytes, getField, setField, getIndex, setIndex, len, free]

def byte : Opcode → UInt8
  | nop => 0x00
  | halt => 0x01
  | push => 0x02
  | pushLong => 0x03
  | pushFloat => 0x04
  | pushNull => 0x05
  | pop => 0x06
  | dup => 0x07
  | swap => 0x08
  | pick => 0x09
  | add => 0x10
  | sub => 0x11
  | mul => 0x12
  | div => 0x13
  | mod => 0x14
  | neg => 0x15
  | and => 0x16
  | or => 0x17
  | xor => 0x18
  | shl => 0x19
  | shr => 0x1a
  | eq => 0x20
  | ne => 0x21
  | lt => 0x22
  | le => 0x23
  | gt => 0x24
  | ge => 0x25
  | not => 0x26
  | intToFloat => 0x28
  | floatToInt => 0x29
  | jump => 0x30
  | jumpIfZero => 0x31
  | jumpIfNonzero => 0x32
  | call => 0x33
  | ret => 0x34
  | load => 0x38
  | store => 0x39
  | newRecord => 0x40
  | newBytes => 0x41
  | getField => 0x42
  | setField => 0x43
  | getIndex => 0x44
  | setIndex => 0x45
  | len => 0x46
  | free => 0x47

def ofByte? : UInt8 → Option Opcode
  | 0x00 => some nop
  | 0x01 => some halt
  | 0x02 => some push
  | 0x03 => some pushLong
  | 0x04 => some pushFloat
  | 0x05 => some pushNull
  | 0x06 => some pop
  | 0x07 => some dup
  | 0x08 => some swap
  | 0x09 => some pick
  | 0x10 => some add
  | 0x11 => some sub
  | 0x12 => some mul
  | 0x13 => some div
  | 0x14 => some mod
  | 0x15 => some neg
  | 0x16 => some and
  | 0x17 => some or
  | 0x18 => some xor
  | 0x19 => some shl
  | 0x1a => some shr
  | 0x20 => some eq
  | 0x21 => some ne
  | 0x22 => some lt
  | 0x23 => some le
  | 0x24 => some gt
  | 0x25 => some ge
  | 0x26 => some not
  | 0x28 => some intToFloat
  | 0x29 => some floatToInt
  | 0x30 => some jump
  | 0x31 => some jumpIfZero
  | 0x32 => some jumpIfNonzero
  | 0x33 => some call
  | 0x34 => some ret
  | 0x38 => some load
  | 0x39 => some store
  | 0x40 => some newRecord
  | 0x41 => some newBytes
  | 0x42 => some getField
  | 0x43 => some setField
  | 0x44 => some getIndex
  | 0x45 => some setIndex
  | 0x46 => some len
  | 0x47 => some free
  | _ => none

def mnemonic : Opcode → String
  | nop => "NOP"
  | halt => "HALT"
  | push => "PUSH"
  | pushLong => "PUSHL"
  | pushFloat => "PUSHF"
  | pushNull => "PUSHNULL"
  | pop => "POP"
  | dup => "DUP"
  | swap => "SWAP"
  | pick => "PICK"
  | add => "ADD"
  | sub => "SUB"
  | mul => "MUL"
  | div => "DIV"
  | mod => "MOD"
  | neg => "NEG"
  | and => "AND"
  | or => "OR"
  | xor => "XOR"
  | shl => "SHL"
  | shr => "SHR"
  | eq => "EQ"
  | ne => "NE"
  | lt => "LT"
  | le => "LE"
  | gt => "GT"
  | ge => "GE"
  | not => "NOT"
  | intToFloat => "ITOF"
  | floatToInt => "FTOI"
  | jump => "JMP"
  | jumpIfZero => "JZ"
  | jumpIfNonzero => "JNZ"
  | call => "CALL"
  | ret => "RET"
  | load => "LOAD"
  | store => "STORE"
  | newRecord => "NEW"
  | newBytes => "NEWBYTES"
  | getField => "GETFIELD"
  | setField => "SETFIELD"
  | getIndex => "GETINDEX"
  | setIndex => "SETINDEX"
  | len => "LEN"
  | free => "FREE"

def immediates : Opcode → List Immediate
  | push => [.int32]
  | pushLong => [.int64]
  | pushFloat => [.float64]
  | pick | jump | jumpIfZero | jumpIfNonzero | newRecord | newBytes | getField | setField =>
    [.uint32]
  | call => [.uint32, .uint8]
  | ret | load | store => [.uint8]
  | _ => []

def operandWidth : Opcode → Nat
  | push | pick | jump | jumpIfZero | jumpIfNonzero => 4
  | newRecord | newBytes | getField | setField => 4
  | pushLong | pushFloat => 8
  | call => 5
  | ret | load | store => 1
  | _ => 0

theorem operandWidth_eq (op : Opcode) :
    op.operandWidth = op.immediates.foldr (fun k width => k.width + width) 0 := by
  cases op <;> rfl

@[simp] theorem ofByte?_byte (op : Opcode) : ofByte? op.byte = some op := by
  cases op <;> rfl

theorem ofByte?_eq_some_iff {b : UInt8} {op : Opcode} : ofByte? b = some op ↔ op.byte = b := by
  constructor
  · intro known
    unfold ofByte? at known
    split at known <;> cases known <;> rfl
  · rintro rfl
    exact ofByte?_byte op

def ofMnemonic? (name : String) : Option Opcode := all.find? fun op => op.mnemonic == name

end Opcode

end StackMachine
