import ConfigUpdate.Scope.Basic
import ConfigUpdate.Store.File

/-!
# What devices publish

A device publishes what it can do as fields of entries of tables, scope by scope: in memory, or in a
file for each scope.
-/

namespace ConfigUpdate

/-- What the device publishes: the text of a field of an entry of a table, in a scope. -/
abbrev DeviceState := Scope → String → String → String → Except StoreError (Option String)

/-- The text of a field in a tree. -/
def Value.fieldAt? (tree : Value) (table key field : String) : Option String := do
  let table ← tree.get? table
  let entry ← table.get? key
  let value ← entry.get? field
  value.fieldText?

/-- The trees that are published, by scope. -/
abbrev PublishedTrees := Dictionary Scope Value

namespace PublishedTrees

/-- The text of a field. -/
def field? (trees : PublishedTrees) (scope : Scope) (table key field : String) : Option String :=
  (Dictionary.get? trees scope).bind (·.fieldAt? table key field)

/-- The trees with a field set; whatever is in the way gives way to objects. -/
def setField (trees : PublishedTrees) (scope : Scope) (table key field text : String) :
    PublishedTrees :=
  let tables := Tables.ofTree ((Dictionary.get? trees scope).getD .empty)
  let fields := ((tables.entryAt? table key).bind Value.members?).getD []
  let entry := Value.object (Dictionary.insert fields field (.ofString text))
  Dictionary.insert trees scope (Write.run (.setEntry table key entry) tables).toTree

/-- What the device publishes. -/
def state (trees : PublishedTrees) : DeviceState := fun scope table key field =>
  .ok (trees.field? scope table key field)

end PublishedTrees

/-- What the device publishes in files, whose paths are given by scope. A missing file publishes
nothing. -/
def DeviceState.ofFiles (disk : Disk) (files : Dictionary Scope String) : DeviceState :=
  fun scope table key field =>
    match Dictionary.get? files scope with
    | none => .ok none
    | some path =>
      if disk.hasNode path then
        (disk.readTree path).map (·.fieldAt? table key field)
      else .ok none

end ConfigUpdate
