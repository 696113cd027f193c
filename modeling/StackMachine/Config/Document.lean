import StackMachine.Config.Basic
import StackMachine.Toml.Library

namespace StackMachine

inductive ConfigError where
  | notFound
  | notText
  | malformed
  | invalid (fault : Fault)
deriving DecidableEq, Repr

namespace Config

def natField? (entries : Toml.Entries) (key : String) (missing : Nat) : Option Nat :=
  match entries.lookup key with
  | none => some missing
  | some (.integer z) => if 0 ≤ z then some z.toNat else none
  | some _ => none

def optionalNatField? (entries : Toml.Entries) (key : String) : Option (Option Nat) :=
  match entries.lookup key with
  | none => some none
  | some (.integer z) => if 0 ≤ z then some (some z.toNat) else none
  | some _ => none

def boolField? (entries : Toml.Entries) (key : String) (missing : Bool) : Option Bool :=
  match entries.lookup key with
  | none => some missing
  | some (.boolean b) => some b
  | some _ => none

def ofEntries? (entries : Toml.Entries) : Option Config := do
  let maxStackDepth ← natField? entries "max_stack_depth" standard.maxStackDepth
  let maxCallDepth ← natField? entries "max_call_depth" standard.maxCallDepth
  let heapBudget ← natField? entries "heap_budget" standard.heapBudget
  let localsPerFrame ← natField? entries "locals_per_frame" standard.localsPerFrame
  let instructionBudget ← optionalNatField? entries "instruction_budget"
  let profileOpcodes ← boolField? entries "profile_opcodes" standard.profileOpcodes
  return ⟨maxStackDepth, maxCallDepth, heapBudget, localsPerFrame, instructionBudget,
    profileOpcodes⟩

def checked (c : Config) : Except ConfigError Config :=
  match c.check with
  | .ok () => .ok c
  | .error e => .error (.invalid e)

def ofToml (lib : Toml.Library) (text : String) : Except ConfigError Config :=
  match (lib.read? text).bind ofEntries? with
  | some c => c.checked
  | none => .error .malformed

def load (lib : Toml.Library) (content : Option ByteArray) : Except ConfigError Config :=
  match content with
  | none => .error .notFound
  | some bytes =>
    match String.fromUTF8? bytes with
    | none => .error .notText
    | some text => ofToml lib text

/-- The record that is written. A budget that is not limited is left out. -/
def fields (c : Config) : List (String × Toml.Scalar) :=
  [("max_stack_depth", .number c.maxStackDepth), ("max_call_depth", .number c.maxCallDepth),
    ("heap_budget", .number c.heapBudget), ("locals_per_frame", .number c.localsPerFrame)] ++
  (match c.instructionBudget with
    | some budget => [("instruction_budget", .number budget)]
    | none => []) ++
  [("profile_opcodes", .flag c.profileOpcodes)]

def toToml? (c : Config) (lib : Toml.Library) : Option String := lib.write? c.fields

end Config

end StackMachine
