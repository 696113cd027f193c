import StackMachine.Toml.Item
import StackMachine.Toml.Number

namespace StackMachine.Toml

/-- A number, a date or a time; a date is tried first, since it begins like a number. -/
def numeric : Reader Item := fun cs =>
  let wrap {α : Type} (make : α → Item) (result : Option (α × List Char)) :
      Option (Item × List Char) := result.map fun (a, rest) => (make a, rest)
  (wrap .dateTime (dateTime cs)).or ((wrap .float (float cs)).or (wrap .integer (integer cs)))

def plain : Reader Item
  | 't' :: 'r' :: 'u' :: 'e' :: rest => some (.boolean true, rest)
  | 'f' :: 'a' :: 'l' :: 's' :: 'e' :: rest => some (.boolean false, rest)
  | cs =>
    match quoted cs with
    | some (text, rest) => some (.string (String.ofList text), rest)
    | none => numeric cs

def arrayItems (item : Reader Item) : Nat → Reader (List Item)
  | 0, _ => none
  | limit + 1, cs =>
    match skipLines false cs with
    | ']' :: rest => some ([], rest)
    | cs =>
      match item cs with
      | none => none
      | some (first, rest) =>
        match skipLines false rest with
        | ',' :: rest => (arrayItems item limit rest).map fun (items, rest) => (first :: items, rest)
        | ']' :: rest => some ([first], rest)
        | _ => none

def assignment (item : Reader Item) : Reader (List String × Item) := fun cs =>
  match keyPath nestingLimit cs with
  | some (path, '=' :: rest) =>
    (item (skipBlanks rest)).map fun (value, rest) => ((path, value), rest)
  | _ => none

def inlineAssignments (item : Reader Item) : Nat → Reader (List (List String × Item))
  | 0, _ => none
  | limit + 1, cs =>
    match assignment item cs with
    | none => none
    | some (first, rest) =>
      match skipBlanks rest with
      | ',' :: rest =>
        (inlineAssignments item limit rest).map fun (others, rest) => (first :: others, rest)
      | '\x7d' :: rest => some ([first], rest)
      | _ => none

def assignPath? (entries : Entries) (path : List String) (value : Item) : Option Entries :=
  match path.getLast? with
  | some key => entries.assign? path.dropLast key value
  | none => none

def inlineTable (item : Reader Item) : Reader Item := fun cs =>
  match skipBlanks cs with
  | '\x7d' :: rest => some (.inline [], rest)
  | cs =>
    (inlineAssignments item cs.length cs).bind fun (assignments, rest) =>
      let entries := assignments.foldlM (fun entries (path, value) =>
        assignPath? entries path value) ([] : Entries)
      entries.map fun entries => (.inline entries, rest)

def item : Nat → Reader Item
  | 0, cs => plain cs
  | depth + 1, cs =>
    match cs with
    | '[' :: rest =>
      (arrayItems (item depth) cs.length rest).map fun (items, rest) => (.array items, rest)
    | '\x7b' :: rest => inlineTable (item depth) rest
    | _ => plain cs

inductive Statement where
  | assign (path : List String) (value : Item)
  | header (path : List String)
  | rowHeader (path : List String)

def statement : Reader Statement
  | '[' :: '[' :: rest =>
    match keyPath nestingLimit rest with
    | some (path, ']' :: ']' :: rest) => some (.rowHeader path, rest)
    | _ => none
  | '[' :: rest =>
    match keyPath nestingLimit rest with
    | some (path, ']' :: rest) => some (.header path, rest)
    | _ => none
  | cs => (assignment (item nestingLimit) cs).map fun ((path, value), rest) =>
    (.assign path value, rest)

def statements? : Nat → List Char → Option (List Statement)
  | 0, _ => none
  | limit + 1, cs =>
    match skipBlanks cs with
    | [] => some []
    | '#' :: rest => (lineEnd? ('#' :: rest)).bind (statements? limit)
    | '\n' :: rest => statements? limit rest
    | '\r' :: '\n' :: rest => statements? limit rest
    | cs =>
      match statement cs with
      | none => none
      | some (first, rest) =>
        (lineEnd? rest).bind fun rest => (statements? limit rest).map (first :: ·)

/-- The root table so far, and the path of the latest header. -/
structure Draft where
  root : Entries
  current : List String

def Draft.extend? (d : Draft) : Statement → Option Draft
  | .assign path value =>
    match path.getLast? with
    | none => none
    | some key =>
      (d.root.assignUnder? d.current path.dropLast key value).map fun root => { d with root := root }
  | .header path =>
    match path.getLast? with
    | none => none
    | some key => (d.root.openTable? path.dropLast key).map fun root => ⟨root, path⟩
  | .rowHeader path =>
    match path.getLast? with
    | none => none
    | some key => (d.root.openRow? path.dropLast key).map fun root => ⟨root, path⟩

def parse? (text : String) : Option Entries :=
  let cs :=
    match text.toList with
    | '\ufeff' :: rest => rest
    | cs => cs
  (statements? (cs.length + 1) cs).bind fun statements =>
    (statements.foldlM Draft.extend? ⟨[], []⟩).map Draft.root

end StackMachine.Toml
