import SchemaIR.Document.Node

/-!
# TOML tables

A table is filled by headers and by dotted keys, and the two may not be mixed: a table
has at most one header, a header may follow the headers of tables inside it, and dotted
keys may only add to tables that dotted keys made. To tell, every table remembers how it
came to be. Values are closed: nothing is added to an array or an inline table.
-/

namespace SchemaIR.Toml

/-- How a table came to be. -/
inductive Origin where
  /-- By a header of its own. -/
  | header
  /-- By the header of a table inside it. -/
  | implied
  /-- By a dotted key. -/
  | dotted
deriving DecidableEq

/-- What a key stands for. -/
inductive Item where
  | value (node : Node)
  | table (origin : Origin) (entries : List (String × Item))
  /-- The tables of a header in double brackets, the last one first. -/
  | tables (elements : List (List (String × Item)))

/-- The keys of a table in the order in which they came. -/
abbrev Entries := List (String × Item)

namespace Item

mutual

/-- The document that an item stands for. -/
def toNode : Item → Node
  | .value node => node
  | .table _ entries => .map (entriesToNodes entries)
  | .tables elements => .seq (elementsToNodes elements).reverse

/-- The documents of the entries of a table. -/
def entriesToNodes : List (String × Item) → List (Node × Node)
  | [] => []
  | (key, item) :: rest => (.string key, item.toNode) :: entriesToNodes rest

/-- The documents of several tables. -/
def elementsToNodes : List (List (String × Item)) → List Node
  | [] => []
  | entries :: rest => .map (entriesToNodes entries) :: elementsToNodes rest

end

end Item

namespace Entries

/-- Changes what a key stands for. -/
def alter (key : String) (change : Option Item → Option Item) : Entries → Option Entries
  | [] => (change none).map fun item => [(key, item)]
  | (k, item) :: rest =>
    if k = key then (change (some item)).map fun item => (k, item) :: rest
    else (alter key change rest).map ((k, item) :: ·)

/-- Changes the table at the end of a path, and makes the tables on the way that are not
there. A path of dotted keys does not lead through tables with a header. -/
def within (dotted : Bool) (change : Origin → Entries → Option Entries) :
    List String → Origin → Entries → Option Entries
  | [], origin, entries => change origin entries
  | key :: path, _, entries =>
    alter key (fun
      | none =>
        let origin := if dotted then .dotted else .implied
        (within dotted change path origin []).map (.table origin)
      | some (.table origin inner) =>
        if dotted && origin = .header then none
        else (within dotted change path origin inner).map (.table origin)
      | some (.tables (last :: earlier)) =>
        (within dotted change path .header last).map fun last => .tables (last :: earlier)
      | some (.tables []) => none
      | some (.value _) => none) entries

/-- Gives a value to a key that has none, behind a path of dotted keys. -/
def assign (path : List String) (key : String) (value : Node) :
    Origin → Entries → Option Entries :=
  within true (fun origin => alter key (fun item? =>
    if (origin == .dotted) == path.isEmpty then none
    else match item? with
      | none => some (.value value)
      | some _ => none)) path

/-- Opens the table of a header. -/
def openTable (path : List String) (key : String) : Origin → Entries → Option Entries :=
  within false (fun _ => alter key (fun
    | none => some (.table .header [])
    | some (.table .implied entries) => some (.table .header entries)
    | some _ => none)) path

/-- Opens one more table of a header in double brackets. -/
def openElement (path : List String) (key : String) : Origin → Entries → Option Entries :=
  within false (fun _ => alter key (fun
    | none => some (.tables [[]])
    | some (.tables elements) => some (.tables ([] :: elements))
    | some _ => none)) path

end Entries

end SchemaIR.Toml
