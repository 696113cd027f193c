import StackMachine.Decimal.Layout

namespace StackMachine

/-- A reference to a heap object: the slot it lives in, and the generation of that slot. The heap
keeps both below `2 ^ 32`. -/
structure Handle where
  index : Nat
  generation : Nat
deriving DecidableEq, Repr

def Handle.text (h : Handle) : String := s!"#{h.index}.{h.generation}"

def Handle.debugText (h : Handle) : String := s!"HeapHandle({h.index}.{h.generation})"

inductive Value where
  | int (n : Int64)
  | float (x : Binary64)
  | ref (h : Handle)
  | null
deriving DecidableEq, Repr

instance : Inhabited Value := ⟨.null⟩

namespace Value

def typeName : Value → String
  | .int _ => "int"
  | .float _ => "float"
  | .ref _ => "ref"
  | .null => "null"

def isInt : Value → Bool
  | .int _ => true
  | _ => false

def isFloat : Value → Bool
  | .float _ => true
  | _ => false

def isRef : Value → Bool
  | .ref _ => true
  | _ => false

def isNull : Value → Bool
  | .null => true
  | _ => false

def isNumeric (v : Value) : Bool := v.isInt || v.isFloat

def toInt? : Value → Option Int64
  | .int n => some n
  | _ => none

def toFloat? : Value → Option Binary64
  | .float x => some x
  | .int n => some (.ofInt64 n)
  | _ => none

def toHandle? : Value → Option Handle
  | .ref h => some h
  | _ => none

def isTruthy : Value → Bool
  | .int n => n != 0
  | .float x => !x.isZero
  | .ref _ => true
  | .null => false

def ofBool (b : Bool) : Value := .int (if b then 1 else 0)

/-- Two integers are equal as integers, other numbers as floating-point numbers, and references
when they are the same handle. -/
def equals : Value → Value → Bool
  | .int a, .int b => a == b
  | .float a, .float b => a.equal b
  | .int a, .float b => (Binary64.ofInt64 a).equal b
  | .float a, .int b => a.equal (.ofInt64 b)
  | .ref a, .ref b => a == b
  | .null, .null => true
  | _, _ => false

def displayStyle : Decimal.Style := ⟨fun _ => true, true⟩

def debugStyle : Decimal.Style := ⟨fun _ => true, false⟩

def display : Value → String
  | .int n => n.toInt.repr
  | .float x => x.text displayStyle
  | .ref h => "<ref " ++ h.text ++ ">"
  | .null => "null"

def debugText : Value → String
  | .int n => "Int(" ++ n.toInt.repr ++ ")"
  | .float x => "Float(" ++ x.text debugStyle ++ ")"
  | .ref h => "Ref(" ++ h.text ++ ")"
  | .null => "Null"

end Value

end StackMachine
