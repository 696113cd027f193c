import StackMachine.Toml.Document

namespace StackMachine.Toml

inductive Scalar where
  | number (n : Nat)
  | flag (b : Bool)
deriving DecidableEq, Repr

namespace Scalar

def text : Scalar → String
  | number n => n.repr
  | flag b => if b then "true" else "false"

/-- Documents hold signed integers of 64 bits. -/
def isWritable : Scalar → Bool
  | number n => decide (n ≤ 0x7fffffffffffffff)
  | flag _ => true

end Scalar

def assignmentLine (entry : String × Scalar) : String := entry.1 ++ " = " ++ entry.2.text

def write? (entries : List (String × Scalar)) : Option String :=
  if entries.all fun entry => entry.2.isWritable then
    some (String.join (entries.map fun entry => assignmentLine entry ++ "\n"))
  else none

/-- What programs use to read documents and to write records as documents. -/
structure Library where
  read? : String → Option Entries
  write? : List (String × Scalar) → Option String

def library : Library := ⟨parse?, write?⟩

end StackMachine.Toml
