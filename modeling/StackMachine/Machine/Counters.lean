import StackMachine.Opcode

namespace StackMachine

/-- How often each operation was executed. An operation that never was is not listed. -/
abbrev Profile := List (Opcode × Nat)

namespace Profile

def count (p : Profile) (op : Opcode) : Nat := (p.lookup op).getD 0

def record (op : Opcode) : Profile → Profile
  | [] => [(op, 1)]
  | (o, n) :: rest => if o = op then (o, n + 1) :: rest else (o, n) :: record op rest

def sorted (p : Profile) : List (String × Nat) :=
  (p.map fun (op, n) => (op.mnemonic, n)).mergeSort fun a b => decide (a.1 ≤ b.1)

end Profile

structure Counters where
  instructions : Nat
  maxStackDepth : Nat
  maxCallDepth : Nat
  profile : Profile
deriving DecidableEq, Repr

def Counters.zero : Counters := ⟨0, 0, 0, []⟩

structure Stats where
  counters : Counters
  heapObjectsLive : Nat
  heapBytesLive : Nat
deriving DecidableEq, Repr

namespace Stats

def jsonObject (members : List (String × String)) : String :=
  "\x7b" ++ String.intercalate "," (members.map fun (key, value) => "\"" ++ key ++ "\":" ++ value)
    ++ "\x7d"

def toJson (s : Stats) : String :=
  let c := s.counters
  let counts := c.profile.sorted.map fun (name, n) => (name, n.repr)
  jsonObject
    ([("instructions", c.instructions.repr), ("max_stack_depth", c.maxStackDepth.repr),
      ("max_call_depth", c.maxCallDepth.repr), ("heap_objects_live", s.heapObjectsLive.repr),
      ("heap_bytes_live", s.heapBytesLive.repr)] ++
      if counts.isEmpty then [] else [("opcode_counts", jsonObject counts)])

end Stats

end StackMachine
