import ConfigUpdate.Value.Basic

/-!
# Tables and writes

The content of a store is a dictionary of tables. A write is a value, so what is written for a move
is a list of writes, and a store is given by what it does with one write.
-/

namespace ConfigUpdate

/-- The tables of a configuration by name. -/
abbrev Tables := Dictionary String Value

namespace Tables

/-- The tables of a tree; a tree that is no object has none. -/
def ofTree (tree : Value) : Tables :=
  tree.members?.getD []

/-- The tree of the tables. -/
def toTree (tables : Tables) : Value :=
  .object tables

/-- An entry of a table. -/
def entryAt? (tables : Tables) (table key : String) : Option Value :=
  (Dictionary.get? tables table).bind (·.get? key)

/-- The entries of a table; a table that is missing or no object has none. -/
def entries (tables : Tables) (table : String) : Dictionary String Value :=
  ((Dictionary.get? tables table).bind Value.members?).getD []

/-- The tables without those that have no entries. -/
def dropEmpty (tables : Tables) : Tables :=
  tables.filter fun t => match t.2 with
    | .object [] => false
    | _ => true

theorem entryAt?_eq_get?_entries (tables : Tables) (table key : String) :
    tables.entryAt? table key = Dictionary.get? (tables.entries table) key :=
  Value.bind_get?_eq (Dictionary.get? tables table) key

end Tables

/-- One write. -/
inductive Write where
  /-- Creates or overwrites an entry. -/
  | setEntry (table key : String) (value : Value)
  /-- Removes an entry; a missing one is none. -/
  | deleteEntry (table key : String)
  /-- Removes a table; a missing one is none. -/
  | deleteTable (table : String)
  /-- Creates or overwrites a whole table. -/
  | setTable (table : String) (value : Value)
  deriving Repr, Inhabited

namespace Write

/-- The tables after the write. What is no object gives way to a table when an entry is set in it.
-/
def run : Write → Tables → Tables
  | setEntry table key value, ts =>
    Dictionary.insert ts table (.object (Dictionary.insert (ts.entries table) key value))
  | deleteEntry table key, ts =>
    match Dictionary.get? ts table with
    | some (.object es) => Dictionary.insert ts table (.object (Dictionary.erase es key))
    | _ => ts
  | deleteTable table, ts => Dictionary.erase ts table
  | setTable table value, ts => Dictionary.insert ts table value

/-- The write of a table as a write of each of its entries, after the table has been removed; `none`
if the value is no table. -/
def entrywise? : Write → Option (List Write)
  | setTable table (.object es) =>
    some (deleteTable table :: es.map fun (key, value) => setEntry table key value)
  | setTable _ _ => none
  | w => some [w]

end Write

end ConfigUpdate
