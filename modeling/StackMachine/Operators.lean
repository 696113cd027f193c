import StackMachine.Instr

namespace StackMachine

namespace ArithOp

def onInts (op : ArithOp) (x y : Int64) : Except Fault Int64 :=
  match op with
  | add => .ok (x + y)
  | sub => .ok (x - y)
  | mul => .ok (x * y)
  | div => if y = 0 then .error .divisionByZero else .ok (x / y)
  | mod => if y = 0 then .error .divisionByZero else .ok (x % y)

def onFloats (op : ArithOp) (x y : Binary64) : Except Fault Binary64 :=
  match op with
  | add => .ok (x.add y)
  | sub => .ok (x.sub y)
  | mul => .ok (x.mul y)
  | div => if y.isZero then .error .divisionByZero else .ok (x.div y)
  | mod => if y.isZero then .error .divisionByZero else .ok (x.rem y)

end ArithOp

/-- A shift moves by the amount modulo 64, and to the right it keeps the sign. -/
def BitOp.onInts (op : BitOp) (x y : Int64) : Int64 :=
  match op with
  | and => x &&& y
  | or => x ||| y
  | xor => x ^^^ y
  | shl => x <<< (y &&& 63)
  | shr => x >>> (y &&& 63)

namespace OrderOp

def onInts (op : OrderOp) (x y : Int64) : Bool :=
  match op with
  | lt => decide (x < y)
  | le => decide (x ≤ y)
  | gt => decide (y < x)
  | ge => decide (y ≤ x)

def onFloats (op : OrderOp) (x y : Binary64) : Bool :=
  match op with
  | lt => x.less y
  | le => x.atMost y
  | gt => y.less x
  | ge => y.atMost x

end OrderOp

namespace Value

def numericMismatch (op : Opcode) (a b : Value) : Fault :=
  .mismatch op.mnemonic (if a.isNumeric then b else a)

def arith (op : ArithOp) (a b : Value) : Except Fault Value :=
  match a, b with
  | .int x, .int y => (op.onInts x y).map .int
  | _, _ =>
    match a.toFloat?, b.toFloat? with
    | some x, some y => (op.onFloats x y).map .float
    | _, _ => .error (numericMismatch op.opcode a b)

def bitwise (op : BitOp) (a b : Value) : Except Fault Value :=
  match a, b with
  | .int x, .int y => .ok (.int (op.onInts x y))
  | .int _, other => .error (.mismatch op.opcode.mnemonic other)
  | other, _ => .error (.mismatch op.opcode.mnemonic other)

def order (op : OrderOp) (a b : Value) : Except Fault Value :=
  match a, b with
  | .int x, .int y => .ok (.ofBool (op.onInts x y))
  | _, _ =>
    match a.toFloat?, b.toFloat? with
    | some x, some y => .ok (.ofBool (op.onFloats x y))
    | _, _ => .error (numericMismatch op.opcode a b)

def neg : Value → Except Fault Value
  | .int n => .ok (.int (-n))
  | .float x => .ok (.float x.neg)
  | v => .error (.mismatch Opcode.neg.mnemonic v)

def intToFloat : Value → Except Fault Value
  | .int n => .ok (.float (.ofInt64 n))
  | v => .error (.mismatch Opcode.intToFloat.mnemonic v)

def floatToInt : Value → Except Fault Value
  | .float x => .ok (.int x.toInt64)
  | v => .error (.mismatch Opcode.floatToInt.mnemonic v)

end Value

end StackMachine
