import ConfigUpdate.Patch.Document
import ConfigUpdate.Store.Write

/-!
# Changes of entries

A change sets an entry to a list of fields or deletes it. It can be made directly on a tree or
written as an operation of a patch.
-/

namespace ConfigUpdate

/-- A change of an entry. -/
inductive Change where
  /-- Sets the whole entry. -/
  | set (table key : String) (fields : Dictionary String String)
  /-- Deletes the entry. -/
  | delete (table key : String)
  deriving DecidableEq, Repr, Inhabited

namespace Change

/-- The entry with some fields. -/
def entryOf (fields : Dictionary String String) : Value :=
  .object (fields.mapValues .ofString)

/-- The location of the entry. -/
def path : Change → Pointer
  | set table key _ | delete table key => .ofNames [table, key]

/-- The tables after the change. A table that is no object stays as it is. -/
def run : Change → Tables → Tables
  | set table key fields, ts =>
    match (Dictionary.get? ts table).getD .empty with
    | .object es => Dictionary.insert ts table (.object (Dictionary.insert es key (entryOf fields)))
    | _ => ts
  | delete table key, ts =>
    match Dictionary.get? ts table with
    | some (.object es) => Dictionary.insert ts table (.object (Dictionary.erase es key))
    | _ => ts

/-- The tree after the change. A tree that is no object gives way to tables. -/
def applyTo (c : Change) (tree : Value) : Value :=
  (c.run (.ofTree tree)).toTree

/-- The tree after a list of changes. -/
def applyAll (changes : List Change) (tree : Value) : Value :=
  changes.foldl (fun tree c => c.applyTo tree) tree

/-- The configuration that consists of the changes. -/
def configOf (changes : List Change) : Value :=
  applyAll changes .empty

/-- The operation that makes the change. -/
def toOperation : Change → Operation
  | set table key fields => ⟨.add, .ofNames [table, key], some (entryOf fields), none⟩
  | delete table key => ⟨.remove, .ofNames [table, key], none, none⟩

/-- The patch document of a list of changes. -/
def patchOf (changes : List Change) : String :=
  Patch.render (changes.map toOperation)

end Change

end ConfigUpdate
