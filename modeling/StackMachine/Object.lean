import StackMachine.Fault

namespace StackMachine

inductive ObjectKind where
  | record
  | bytes
deriving DecidableEq, Repr

namespace ObjectKind

def name : ObjectKind → String
  | record => "record"
  | bytes => "bytes"

def headerCharge : Nat := 16

def elementCharge : ObjectKind → Nat
  | record => 16
  | bytes => 1

def charge (kind : ObjectKind) (n : Nat) : Nat := headerCharge + kind.elementCharge * n

end ObjectKind

inductive Object where
  | record (fields : Array Value)
  | bytes (payload : Array UInt8)
deriving DecidableEq, Repr

namespace Object

def blank : ObjectKind → Nat → Object
  | .record, n => .record (Array.replicate n .null)
  | .bytes, n => .bytes (Array.replicate n 0)

def kind : Object → ObjectKind
  | record _ => .record
  | bytes _ => .bytes

def length : Object → Nat
  | record fields => fields.size
  | bytes payload => payload.size

def charge (o : Object) : Nat := o.kind.charge o.length

def get? : Object → Nat → Option Value
  | record fields, i => fields[i]?
  | bytes payload, i => payload[i]?.map fun b => .int (Int64.ofNat b.toNat)

def byteOf : Value → Except Fault UInt8
  | .int n =>
    if 0 ≤ n.toInt ∧ n.toInt < 256 then .ok (UInt8.ofNat n.toInt.toNat)
    else .error (.typeMismatch "byte store (0..=255)" "int")
  | v => .error (.mismatch "byte store" v)

/-- Whether a value can be stored in an element: the element has to exist, and an array of bytes
takes bytes only. -/
def checkStore (o : Object) (i : Nat) (v : Value) : Except Fault Unit :=
  if i < o.length then
    match o with
    | record _ => .ok ()
    | bytes _ => (byteOf v).map fun _ => ()
  else .error (.fieldOutOfRange i o.length)

def put (o : Object) (i : Nat) (v : Value) : Object :=
  match o with
  | record fields => record (fields.setIfInBounds i v)
  | bytes payload =>
    match byteOf v with
    | .ok b => bytes (payload.setIfInBounds i b)
    | .error _ => bytes payload

end Object

end StackMachine
