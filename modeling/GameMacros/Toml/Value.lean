/-!
# TOML values and tables

A TOML document is a table. Tables come about in three ways: by a header or between braces, by a
header that goes through them, and by a dotted key that goes through them. What may be added to a
table later depends on this, so it is kept until the document is read.
-/

namespace GameMacros.Toml

/-- A value. Numbers with a fraction, dates and times are recognized, but not kept. -/
inductive Value where
  | string (text : String)
  | integer (number : Int)
  | boolean (truth : Bool)
  | fraction
  | moment
  | array (items : List Value)
  | table (entries : List (String × Value))
  deriving Repr, Inhabited

/-- How a table came about. -/
inductive Origin where
  | header
  | implied
  | dotted
  deriving DecidableEq, Repr

/-- What stands under a key while a document is being read. -/
inductive Node where
  | value (value : Value)
  | table (origin : Origin) (entries : List (String × Node))
  /-- The tables that share a header, the latest first. -/
  | tables (latest : List (String × Node)) (earlier : List (List (String × Node)))
  deriving Repr, Inhabited

/-- The entries of a table while a document is being read. Keys are distinct. -/
abbrev Entries := List (String × Node)

mutual

/-- The value of a node. -/
def Node.toValue : Node → Value
  | .value content => content
  | .table _ entries => .table (Node.toValues entries)
  | .tables latest earlier =>
    .array (Node.toTables earlier (.table (Node.toValues latest) :: []))

/-- The values of entries. -/
def Node.toValues : List (String × Node) → List (String × Value)
  | [] => []
  | (key, node) :: rest => (key, node.toValue) :: Node.toValues rest

/-- The values of tables that are given backwards, in front of others. -/
def Node.toTables : List (List (String × Node)) → List Value → List Value
  | [], values => values
  | entries :: rest, values => Node.toTables rest (.table (Node.toValues entries) :: values)

end

namespace Entries

/-- Replaces what stands under a key, or adds it at the end. The change may be refused. -/
def alter (key : String) (change : Option Node → Option Node) : Entries → Option Entries
  | [] => (change none).map fun node => [(key, node)]
  | (other, node) :: rest =>
    if other = key then (change (some node)).map fun changed => (key, changed) :: rest
    else (alter key change rest).map ((other, node) :: ·)

/-- Adds an entry. The key must be new. -/
def add (key : String) (value : Value) : Entries → Option Entries :=
  alter key fun
    | none => some (.value value)
    | some _ => none

/-- Adds an entry under a dotted key. Tables on the way are made as needed; a table that has a
header of its own is closed to dotted keys. The entry itself goes only into a table that takes
entries: the one that the key starts from, or one that a dotted key made. -/
def assign (takesEntries : Bool) (value : Value) : (path : List String) → Entries → Option Entries
  | [], _ => none
  | [key], entries => if takesEntries then entries.add key value else none
  | key :: rest, entries =>
    entries.alter key fun
      | none => (assign true value rest []).map (.table .dotted)
      | some (.value _) => none
      | some (.table .header _) => none
      | some (.table .implied under) => (assign false value rest under).map (.table .implied)
      | some (.table .dotted under) => (assign true value rest under).map (.table .dotted)
      | some (.tables latest earlier) => (assign false value rest latest).map (.tables · earlier)

/-- Changes the table that a header path leads to. Tables on the way are made as needed, and of the
tables that share a header the path leads through the latest. -/
def within (change : Entries → Option Entries) : (path : List String) → Entries → Option Entries
  | [], entries => change entries
  | key :: rest, entries =>
    entries.alter key fun
      | none => (within change rest []).map (.table .implied)
      | some (.value _) => none
      | some (.table origin under) => (within change rest under).map (.table origin)
      | some (.tables latest earlier) => (within change rest latest).map (.tables · earlier)

/-- Opens a table under its header. It must not have had one before, nor come from a dotted key. -/
def openTable (key : String) : Entries → Option Entries :=
  alter key fun
    | none => some (.table .header [])
    | some (.table .implied entries) => some (.table .header entries)
    | some _ => none

/-- Opens another one of the tables that share a header. -/
def openNextTable (key : String) : Entries → Option Entries :=
  alter key fun
    | none => some (.tables [] [])
    | some (.tables latest earlier) => some (.tables [] (latest :: earlier))
    | some _ => none

end Entries

end GameMacros.Toml
