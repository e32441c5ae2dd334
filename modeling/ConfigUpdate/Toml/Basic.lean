import ConfigUpdate.Dictionary

/-!
# TOML values

The values of a settings file. A table remembers how it came about, since that decides whether what
follows may add to it.
-/

namespace ConfigUpdate

/-- How a table came about. -/
inductive TableOrigin where
  /-- It has a header of its own. -/
  | header
  /-- It stands on the way to a table with a header. -/
  | passage
  /-- It stands on the way to a dotted key. -/
  | dotted
  /-- It is written between braces. -/
  | inlined
  deriving DecidableEq, Repr

/-- A value of a settings file. Of a floating-point number only the kind counts, as no setting is
one. -/
inductive Toml where
  | text (value : String)
  | integer (value : Int)
  | float
  | boolean (value : Bool)
  | array (items : List Toml)
  | table (origin : TableOrigin) (members : List (String × Toml))
  /-- Tables that share a header. -/
  | tables (elements : List Toml)
  deriving Repr, Inhabited

namespace Toml

/-- The members of a table. -/
abbrev Members := Dictionary String Toml

/-- Assigns a value to a dotted key: the names on the way and the last one. No name may be assigned
twice, and a table that did not come about by dotted keys cannot be added to. -/
def assign (value : Toml) (last : String) : List String → Members → Option Members
  | [], ms => if Dictionary.contains ms last then none else some (Dictionary.insert ms last value)
  | key :: keys, ms =>
    let within (origin : TableOrigin) (inner : Members) : Option Toml :=
      (assign value last keys inner).map (.table origin)
    let below : Option Toml :=
      match Dictionary.get? ms key with
      | none => within .dotted []
      | some (.table .dotted inner) => within .dotted inner
      | some (.table .passage inner) => if keys = [] then none else within .passage inner
      | some (.tables elements) =>
        match keys, elements.getLast? with
        | _ :: _, some (.table origin inner) =>
          (within origin inner).map fun t => .tables (elements.dropLast ++ [t])
        | _, _ => none
      | some _ => none
    below.map (Dictionary.insert ms key)

/-- Changes what stands at the names of a header. Among tables that share a header the last one is
meant. -/
def alterAt (change : Option Toml → Option Toml) (last : String) :
    List String → Members → Option Members
  | [], ms => (change (Dictionary.get? ms last)).map (Dictionary.insert ms last)
  | key :: keys, ms =>
    let within (origin : TableOrigin) (inner : Members) : Option Toml :=
      (alterAt change last keys inner).map (.table origin)
    let below : Option Toml :=
      match Dictionary.get? ms key with
      | none => within .passage []
      | some (.table .inlined _) => none
      | some (.table origin inner) => within origin inner
      | some (.tables elements) =>
        match elements.getLast? with
        | some (.table origin inner) =>
          (within origin inner).map fun t => .tables (elements.dropLast ++ [t])
        | _ => none
      | some _ => none
    below.map (Dictionary.insert ms key)

/-- Opens the table of a header. -/
def openTable : Option Toml → Option Toml
  | none => some (.table .header [])
  | some (.table .passage inner) => some (.table .header inner)
  | some _ => none

/-- Opens one more table of a shared header. -/
def openElement : Option Toml → Option Toml
  | none => some (.tables [.table .header []])
  | some (.tables elements) => some (.tables (elements ++ [.table .header []]))
  | some _ => none

/-- Changes the members of the table that was opened last at a place. -/
def alterOpen (change : Members → Option Members) : Option Toml → Option Toml
  | some (.table origin inner) => (change inner).map (.table origin)
  | some (.tables elements) =>
    match elements.getLast? with
    | some (.table origin inner) =>
      (change inner).map fun inner => .tables (elements.dropLast ++ [.table origin inner])
    | _ => none
  | _ => none

end Toml

/-- A statement of a settings file. A path is given by its names up to the last one, and the last
one. -/
inductive TomlStatement where
  /-- A header: what follows belongs to a table of its own. -/
  | table (path : List String) (last : String)
  /-- A shared header: what follows belongs to one more of its tables. -/
  | element (path : List String) (last : String)
  /-- A value for a key. -/
  | assign (path : List String) (last : String) (value : Toml)
  deriving Repr, Inhabited

namespace Toml

/-- The members after some statements; `here` is the header under which they stand. -/
def ofStatements? (here : Option (List String × String)) (ms : Members) :
    List TomlStatement → Option Members
  | [] => some ms
  | .table path last :: rest => do
    ofStatements? (some (path, last)) (← alterAt openTable last path ms) rest
  | .element path last :: rest => do
    ofStatements? (some (path, last)) (← alterAt openElement last path ms) rest
  | .assign path last value :: rest =>
    match here with
    | none => do ofStatements? none (← assign value last path ms) rest
    | some (p, l) => do
      let ms ← alterAt (alterOpen (assign value last path)) l p ms
      ofStatements? here ms rest

end Toml

end ConfigUpdate
