import StackMachine.Code.Listing

namespace StackMachine

inductive Level where
  | warn
  | info
  | debug
  | trace
deriving DecidableEq, Repr

namespace Level

def detail : Level → Nat
  | warn => 1
  | info => 2
  | debug => 3
  | trace => 4

def name : Level → String
  | warn => "WARN"
  | info => "INFO"
  | debug => "DEBUG"
  | trace => "TRACE"

end Level

inductive Event where
  | created (codeSize maxStackDepth maxCallDepth heapBudget : Nat)
  | started (ip : Nat)
  | dispatched (ip : Nat) (instr : Instr) (depth : Nat)
  | allocated (handle : Handle) (kind : ObjectKind) (size : Nat)
  | freed (handle : Handle)
  | budgetExhausted (budget ip : Nat)
  | halted (ip instructions : Nat)
  | failed (fault : Fault) (ip instructions : Nat)
  | destroyed (instructions : Nat)
deriving DecidableEq, Repr

namespace Event

def level : Event → Level
  | created .. | destroyed .. => .info
  | started .. | halted .. | failed .. => .debug
  | dispatched .. | allocated .. | freed .. => .trace
  | budgetExhausted .. => .warn

def title : Event → String
  | created .. => "vm created"
  | started .. => "vm started"
  | dispatched .. => "dispatch"
  | allocated .. => "heap allocate"
  | freed .. => "heap free"
  | budgetExhausted .. => "instruction budget exhausted"
  | halted .. => "vm halted"
  | failed .. => "vm halted with error"
  | destroyed .. => "vm destroyed"

def details : Event → List (String × String)
  | created codeSize maxStackDepth maxCallDepth heapBudget =>
    [("code_len", codeSize.repr), ("max_stack_depth", maxStackDepth.repr),
      ("max_call_depth", maxCallDepth.repr), ("heap_budget", heapBudget.repr)]
  | started ip => [("ip", ip.repr)]
  | dispatched ip instr depth => [("ip", ip.repr), ("instr", instr.text), ("depth", depth.repr)]
  | allocated handle kind size =>
    [("handle", handle.text), ("kind", kind.name), ("size", size.repr)]
  | freed handle => [("handle", handle.text)]
  | budgetExhausted budget ip => [("budget", budget.repr), ("ip", ip.repr)]
  | halted ip instructions => [("ip", ip.repr), ("instructions", instructions.repr)]
  | failed fault ip instructions =>
    [("error", fault.message), ("ip", ip.repr), ("instructions", instructions.repr)]
  | destroyed instructions => [("instructions", instructions.repr)]

def line (e : Event) : String :=
  e.level.name ++ " " ++ e.title ++
    String.join (e.details.map fun (key, value) => " | " ++ key ++ "=" ++ value)

end Event

structure Journal where
  /-- Nothing is kept without a threshold, and else what is no more detailed than it. -/
  threshold : Option Level
  events : Array Event
deriving DecidableEq, Repr

namespace Journal

def empty (threshold : Option Level) : Journal := ⟨threshold, #[]⟩

def admits (j : Journal) (e : Event) : Bool :=
  match j.threshold with
  | some level => decide (e.level.detail ≤ level.detail)
  | none => false

@[inline] def add (j : Journal) (e : Event) : Journal :=
  if j.admits e then { j with events := j.events.push e } else j

end Journal

end StackMachine
