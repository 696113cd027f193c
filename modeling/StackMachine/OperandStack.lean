import StackMachine.Fault

namespace StackMachine

/-- Values from the bottom up. The floor is the base of the current call: the values under it
belong to the callers. -/
structure OperandStack where
  values : Array Value
  maxDepth : Nat
  floor : Nat
deriving DecidableEq, Repr

namespace OperandStack

def empty (maxDepth : Nat) : OperandStack := ⟨#[], maxDepth, 0⟩

def depth (s : OperandStack) : Nat := s.values.size

def toList (s : OperandStack) : List Value := s.values.toList

def available (s : OperandStack) : Nat := s.depth - s.floor

def isFull (s : OperandStack) : Bool := decide (s.maxDepth ≤ s.depth)

@[inline] def push (v : Value) : Action OperandStack Unit := fun s =>
  if s.isFull then .error (.stackOverflow s.maxDepth) s
  else .ok () { s with values := s.values.push v }

@[inline] def pop : Action OperandStack Value := fun s =>
  if s.depth ≤ s.floor then .error .stackUnderflow s
  else
    match s.values.back? with
    | some v => .ok v { s with values := s.values.pop }
    | none => .error .stackUnderflow s

@[inline] def peek (n : Nat) : Action OperandStack Value := fun s =>
  if s.available ≤ n then .error .stackUnderflow s
  else
    match s.values[s.depth - 1 - n]? with
    | some v => .ok v s
    | none => .error .stackUnderflow s

@[inline] def setFloor (floor : Nat) : Action OperandStack Unit := fun s =>
  if s.depth < floor then .error .stackUnderflow s else .ok () { s with floor := floor }

/-- Removes what lies between the bottom `base` values and the top `keep` ones. The floor comes
down with the top if it has to. -/
def collapse (base keep : Nat) : Action OperandStack Unit := fun s =>
  if s.depth < keep then .error .stackUnderflow s
  else
    let keptFrom := s.depth - keep
    if keptFrom < base then .error .stackUnderflow s
    else
      let values := s.values.extract 0 base ++ s.values.extract keptFrom s.depth
      .ok () { s with values := values, floor := min s.floor values.size }

def release (s : OperandStack) : OperandStack := { s with values := #[], floor := 0 }

def top? (s : OperandStack) : Option Value :=
  match peek 0 s with
  | .ok v _ => some v
  | .error _ _ => none

end OperandStack

end StackMachine
