namespace StackMachine.Toml

/-- How a table came about. A table that only stands in the path of a header can get a header of
its own later; one made by dotted keys can only grow by dotted keys. -/
inductive Origin where
  | header
  | path
  | dotted
deriving DecidableEq, Repr

inductive Item where
  | string (text : String)
  | integer (value : Int)
  | float (text : String)
  | boolean (value : Bool)
  | dateTime (text : String)
  | array (items : List Item)
  | inline (entries : List (String × Item))
  | table (origin : Origin) (entries : List (String × Item))
  | tables (rows : List (List (String × Item)))

abbrev Entries := List (String × Item)

namespace Entries

def replace (key : String) (item : Item) : Entries → Entries
  | [] => []
  | (k, old) :: rest => if k = key then (k, item) :: rest else (k, old) :: replace key item rest

def add? (key : String) (item : Item) (entries : Entries) : Option Entries :=
  match entries.lookup key with
  | some _ => none
  | none => some (entries ++ [(key, item)])

/-- Changes the table at the end of a path. Tables that are missing on the way are made, of the
given origin; a path of dotted keys does not lead through a table with a header. -/
def update? (via : Origin) (change : Origin → Entries → Option Entries) :
    List String → Origin → Entries → Option Entries
  | [], origin, entries => change origin entries
  | key :: path, _, entries =>
    match entries.lookup key with
    | none => (update? via change path via []).map fun sub => entries ++ [(key, .table via sub)]
    | some (.table origin sub) =>
      if via = .dotted ∧ origin = .header then none
      else (update? via change path origin sub).map fun sub =>
        entries.replace key (.table origin sub)
    | some (.tables (row :: rows)) =>
      (update? via change path .header row).map fun row =>
        entries.replace key (.tables (row :: rows))
    | some _ => none

/-- Sets a key behind a path of dotted keys. The table at the end of a path has to be one that
dotted keys made; without a path it has to be one that they did not make. -/
def assign? (path : List String) (key : String) (item : Item) (entries : Entries) :
    Option Entries :=
  let set (origin : Origin) (sub : Entries) : Option Entries :=
    if (origin == .dotted) = path.isEmpty then none else sub.add? key item
  update? .dotted set path .header entries

def openTable? (path : List String) (key : String) (entries : Entries) : Option Entries :=
  let start (_ : Origin) (parent : Entries) : Option Entries :=
    match parent.lookup key with
    | none => some (parent ++ [(key, .table .header [])])
    | some (.table .path sub) => some (parent.replace key (.table .header sub))
    | some _ => none
  update? .path start path .header entries

def openRow? (path : List String) (key : String) (entries : Entries) : Option Entries :=
  let start (_ : Origin) (parent : Entries) : Option Entries :=
    match parent.lookup key with
    | none => some (parent ++ [(key, .tables [[]])])
    | some (.tables rows) => some (parent.replace key (.tables ([] :: rows)))
    | some _ => none
  update? .path start path .header entries

def assignUnder? (current path : List String) (key : String) (item : Item) (entries : Entries) :
    Option Entries :=
  update? .path (fun _ sub => sub.assign? path key item) current .header entries

end Entries

end StackMachine.Toml
