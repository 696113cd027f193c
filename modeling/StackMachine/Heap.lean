import StackMachine.Object

namespace StackMachine

structure Slot where
  generation : Nat
  object : Option Object
deriving DecidableEq, Repr

def Slot.lastGeneration : Nat := 0xffffffff

def Slot.fresh : Slot := ⟨0, none⟩

/-- The slot with no object, past every handle to it. At the last generation the slot stays empty
for good, so the generation need not rise. -/
def Slot.vacate (s : Slot) : Slot :=
  { generation := if s.generation < lastGeneration then s.generation + 1 else s.generation
    object := none }

/-- The free slots are listed in the order in which they are used again. -/
structure Heap where
  slots : Array Slot
  free : List Nat
  live : Nat
  bytesInUse : Nat
  budget : Nat
deriving DecidableEq, Repr

namespace Heap

def empty (budget : Nat) : Heap := ⟨#[], [], 0, 0, budget⟩

def defaultBudget : Nat := 16 * 1024 * 1024

def maxSize : Nat := 0xffffffffffffffff

def maxSlots : Nat := 0x100000000

def get? (heap : Heap) (h : Handle) : Option Object :=
  match heap.slots[h.index]? with
  | some slot => if slot.generation = h.generation then slot.object else none
  | none => none

def isLive (heap : Heap) (h : Handle) : Bool := (heap.get? h).isSome

def place (index charge : Nat) (object : Object) (heap : Heap) : Heap :=
  { heap with
    slots := heap.slots.modify index fun slot => { slot with object := some object }
    live := heap.live + 1
    bytesInUse := heap.bytesInUse + charge }

def allocate (kind : ObjectKind) (n : Nat) : Action Heap Handle := fun heap =>
  let charge := kind.charge n
  if maxSize < charge then .error (.outOfMemory maxSize heap.budget) heap
  else if heap.budget < heap.bytesInUse + charge then
    .error (.outOfMemory charge heap.budget) heap
  else
    match heap.free with
    | index :: rest =>
      let generation := (heap.slots.getD index .fresh).generation
      let heap := place index charge (.blank kind n) { heap with free := rest }
      .ok ⟨index, generation⟩ heap
    | [] =>
      let index := heap.slots.size
      if maxSlots ≤ index then .error (.outOfMemory charge heap.budget) heap
      else
        let heap := { heap with slots := heap.slots.push .fresh }
        .ok ⟨index, 0⟩ (place index charge (.blank kind n) heap)

def read (h : Handle) (field : Nat) : Action Heap Value := fun heap =>
  match heap.get? h with
  | none => .error (.invalidHandle h) heap
  | some object =>
    match object.get? field with
    | some v => .ok v heap
    | none => .error (.fieldOutOfRange field object.length) heap

def checkWrite (heap : Heap) (h : Handle) (field : Nat) (v : Value) : Except Fault Unit :=
  match heap.get? h with
  | none => .error (.invalidHandle h)
  | some object => object.checkStore field v

def write (h : Handle) (field : Nat) (v : Value) : Action Heap Unit := fun heap =>
  match heap.checkWrite h field v with
  | .error e => .error e heap
  | .ok () =>
    .ok () { heap with
      slots := heap.slots.modify h.index fun slot =>
        { slot with object := slot.object.map (·.put field v) } }

def release (h : Handle) : Action Heap Unit := fun heap =>
  match heap.get? h with
  | none => .error (.invalidHandle h) heap
  | some object =>
    .ok () { heap with
      slots := heap.slots.modify h.index .vacate
      free := if h.generation < Slot.lastGeneration then h.index :: heap.free else heap.free
      live := heap.live - 1
      bytesInUse := heap.bytesInUse - object.charge }

def length (h : Handle) : Action Heap Nat := fun heap =>
  match heap.get? h with
  | none => .error (.invalidHandle h) heap
  | some object => .ok object.length heap

def clear (heap : Heap) : Heap :=
  { heap with
    slots := heap.slots.map .vacate
    free := (List.range heap.slots.size).filter fun index =>
      decide ((heap.slots.getD index .fresh).generation < Slot.lastGeneration)
    live := 0
    bytesInUse := 0 }

end Heap

end StackMachine
