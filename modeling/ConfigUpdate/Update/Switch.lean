import ConfigUpdate.Apply
import ConfigUpdate.Scope.Basic
import ConfigUpdate.Store.Database

/-!
# Switches

The databases of a switch, one for each scope, together with the disk on which some of them are.
-/

namespace ConfigUpdate

/-- The databases of a switch and its disk. -/
structure Switch where
  /-- The databases by scope. -/
  databases : Dictionary Scope Database
  /-- The disk. -/
  disk : Disk
  deriving Repr

namespace Switch

/-- The failure because a scope has no database. -/
def noDatabase (scope : Scope) : UpdateError :=
  .invalidPatch ("no configuration store for scope " ++ scope.name)

/-- The configuration in a database. -/
def configOf (s : Switch) (db : Database) : Except UpdateError Value :=
  match Database.store.config (db, s.disk) with
  | .ok config => .ok config
  | .error e => .error (.store e)

/-- The configuration of a scope. -/
def config (s : Switch) (scope : Scope) : Except UpdateError Value :=
  match Dictionary.get? s.databases scope with
  | some db => s.configOf db
  | none => .error (noDatabase scope)

/-- The configurations of some scopes as members by name. -/
def configs (s : Switch) : Dictionary Scope Database → Except UpdateError (List (String × Value))
  | [] => .ok []
  | (scope, db) :: dbs => do return (scope.name, ← s.configOf db) :: (← configs s dbs)

/-- The configuration of the switch: of the host, or of all scopes by name. -/
def snapshot (s : Switch) (multiAsic : Bool) : Except UpdateError Value :=
  if multiAsic then do return .object (Dictionary.ofList (← s.configs s.databases))
  else s.config .host

/-- Makes the moves of a plan in a scope. -/
def apply (scope : Scope) (moves : List Move) (s : Switch) :
    Except UpdateError CommitReport × Switch :=
  match Dictionary.get? s.databases scope with
  | none => (.error (noDatabase scope), s)
  | some db =>
    let (outcome, db, disk) := Database.store.apply moves (db, s.disk)
    (outcome, ⟨Dictionary.insert s.databases scope db, disk⟩)

end Switch

end ConfigUpdate
