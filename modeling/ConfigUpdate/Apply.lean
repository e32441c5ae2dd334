import ConfigUpdate.Patch.Move
import ConfigUpdate.Store.Basic

/-!
# Making moves in a store

The moves of a plan are made one at a time. Before a move is made, the part of the configuration
that it addresses is read back and the move has to find there what it expects, so that the work of
another writer is never overwritten. A failure stops the run; what has been written stays written.
-/

namespace ConfigUpdate

/-- The part of a configuration that a move addresses. -/
inductive Slice where
  | whole
  | table (name : String)
  | entry (table key : String)
  deriving DecidableEq, Repr

namespace Slice

/-- The part that a pointer leads into. -/
def ofPath : Pointer → Slice
  | [] => whole
  | [t] => table t.name
  | t :: k :: _ => entry t.name k.name

/-- The part as a tree, with the rest of the configuration left out. A table whose entry is
addressed is taken to be there, since a store may lose a table with its last entry. -/
def view (slice : Slice) (config : Value) : Value :=
  let tables := Tables.ofTree config
  match slice with
  | whole => config
  | table t => .object ((Dictionary.get? tables t).toList.map fun v => (t, v))
  | entry t k => .object [(t, .object ((tables.entryAt? t k).toList.map fun v => (k, v)))]

/-- The writes that turn the whole configuration into another one: tables that are gone are deleted,
and tables that differ are set. -/
def writesOfTables (before after : Tables) : List Write :=
  (before.keys.filter fun t => !Dictionary.contains after t).map .deleteTable ++
    (after.filter fun t => !(Dictionary.get? before t.1).any (· == t.2)).map fun t =>
      .setTable t.1 t.2

/-- The writes that turn the view of the part into another one. -/
def writes (slice : Slice) (before after : Value) : List Write :=
  match slice with
  | whole => writesOfTables (.ofTree before) (.ofTree after)
  | table t =>
    match after.get? t with
    | some v => [.setTable t v]
    | none => [.deleteTable t]
  | entry t k =>
    match (Tables.ofTree after).entryAt? t k with
    | some v => [.setEntry t k v]
    | none => [.deleteEntry t k]

end Slice

/-- How many moves of a plan were made. -/
structure CommitReport where
  /-- How many moves were made. -/
  committed : Nat
  /-- How many moves the plan has. -/
  total : Nat
  deriving DecidableEq, Repr

/-- Why a move cannot be made. -/
inductive MoveFault where
  /-- The store refuses a call. -/
  | store (cause : StoreError)
  /-- The move does not find what it expects. -/
  | drift (cause : PreconditionError)
  deriving DecidableEq, Repr

/-- The failure of the update when the move at a position cannot be made. -/
def MoveFault.toError (index : Nat) (path : Pointer) : MoveFault → UpdateError
  | store cause => .applyFailed index path.text index cause
  | drift cause => .concurrentModification index path.text index cause.message

namespace Store

variable {σ : Type}

/-- Makes a move. -/
def makeMove (store : Store σ) (m : Move) (s : σ) : Except MoveFault Unit × σ :=
  match store.config s with
  | .error e => (.error (.store e), s)
  | .ok config =>
    let slice := Slice.ofPath m.path
    let before := slice.view config
    match m.step before with
    | .error e => (.error (.drift e), s)
    | .ok after =>
      match store.writeAll (slice.writes before after) s with
      | (.ok (), s) => (.ok (), s)
      | (.error e, s) => (.error (.store e), s)

/-- Makes the moves of a plan, of which the first has a position. -/
def makeMoves (store : Store σ) (index : Nat) : List Move → σ → Except UpdateError Unit × σ
  | [], s => (.ok (), s)
  | m :: ms, s =>
    match store.makeMove m s with
    | (.ok (), s) => makeMoves store (index + 1) ms s
    | (.error fault, s) => (.error (fault.toError index m.path), s)

/-- Makes the moves of a plan. -/
def apply (store : Store σ) (moves : List Move) (s : σ) : Except UpdateError CommitReport × σ :=
  match store.makeMoves 0 moves s with
  | (.ok (), s) => (.ok ⟨moves.length, moves.length⟩, s)
  | (.error e, s) => (.error e, s)

end Store

end ConfigUpdate
