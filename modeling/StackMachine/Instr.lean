import StackMachine.Opcode
import StackMachine.Object

namespace StackMachine

inductive ArithOp where
  | add
  | sub
  | mul
  | div
  | mod
deriving DecidableEq, Repr

inductive BitOp where
  | and
  | or
  | xor
  | shl
  | shr
deriving DecidableEq, Repr

inductive OrderOp where
  | lt
  | le
  | gt
  | ge
deriving DecidableEq, Repr

inductive Instr where
  | nop
  | halt
  | push (n : Int32)
  | pushLong (n : Int64)
  | pushFloat (x : Binary64)
  | pushNull
  | pop
  | dup
  | swap
  | pick (depth : UInt32)
  | arith (op : ArithOp)
  | neg
  | bitwise (op : BitOp)
  | eq
  | ne
  | order (op : OrderOp)
  | not
  | intToFloat
  | floatToInt
  | jump (target : UInt32)
  /-- Takes a value, and jumps if it holds as `sense` says. -/
  | branch (sense : Bool) (target : UInt32)
  | call (target : UInt32) (argc : UInt8)
  | ret (count : UInt8)
  | load (index : UInt8)
  | store (index : UInt8)
  | new (kind : ObjectKind) (size : UInt32)
  | getField (field : UInt32)
  | setField (field : UInt32)
  | getIndex
  | setIndex
  | len
  | free
deriving DecidableEq, Repr

def ArithOp.opcode : ArithOp → Opcode
  | add => .add
  | sub => .sub
  | mul => .mul
  | div => .div
  | mod => .mod

def BitOp.opcode : BitOp → Opcode
  | and => .and
  | or => .or
  | xor => .xor
  | shl => .shl
  | shr => .shr

def OrderOp.opcode : OrderOp → Opcode
  | lt => .lt
  | le => .le
  | gt => .gt
  | ge => .ge

namespace Instr

def opcode : Instr → Opcode
  | nop => .nop
  | halt => .halt
  | push _ => .push
  | pushLong _ => .pushLong
  | pushFloat _ => .pushFloat
  | pushNull => .pushNull
  | pop => .pop
  | dup => .dup
  | swap => .swap
  | pick _ => .pick
  | arith op => op.opcode
  | neg => .neg
  | bitwise op => op.opcode
  | eq => .eq
  | ne => .ne
  | order op => op.opcode
  | not => .not
  | intToFloat => .intToFloat
  | floatToInt => .floatToInt
  | jump _ => .jump
  | branch false _ => .jumpIfZero
  | branch true _ => .jumpIfNonzero
  | call _ _ => .call
  | ret _ => .ret
  | load _ => .load
  | store _ => .store
  | new .record _ => .newRecord
  | new .bytes _ => .newBytes
  | getField _ => .getField
  | setField _ => .setField
  | getIndex => .getIndex
  | setIndex => .setIndex
  | len => .len
  | free => .free

def mnemonic (i : Instr) : String := i.opcode.mnemonic

end Instr

end StackMachine
