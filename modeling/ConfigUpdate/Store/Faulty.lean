import ConfigUpdate.Change.Basic
import ConfigUpdate.Store.Basic

/-!
# Faulty stores

A store in memory that fails one write, or that another writer changes after a number of writes, or
that loses a table with its last entry. It shows what an update does on a store that misbehaves.
-/

namespace ConfigUpdate

/-- The content of a faulty store, and its faults. -/
structure FaultyContent where
  /-- The tables. -/
  tables : Tables
  /-- How many writes succeeded. -/
  writes : Nat := 0
  /-- The number of writes after which one fails. -/
  failAt : Option Nat := none
  /-- A change by another writer, and the number of writes after which it is made. -/
  drift : Option (Nat × Change) := none
  /-- Whether empty tables are lost. -/
  dropsEmpty : Bool := false
  deriving Repr, Inhabited

namespace FaultyContent

/-- Loses the empty tables, if the store does so. -/
def settle (c : FaultyContent) : FaultyContent :=
  if c.dropsEmpty then { c with tables := c.tables.dropEmpty } else c

/-- Makes the change of the other writer, if it is due. -/
def driftOn (c : FaultyContent) : FaultyContent :=
  match c.drift with
  | some (n, change) => if n = c.writes then { c with tables := change.run c.tables } else c
  | none => c

/-- The content after a write that succeeds. -/
def accept (w : Write) (c : FaultyContent) : FaultyContent :=
  { c with tables := w.run c.tables, writes := c.writes + 1 }.settle.driftOn

end FaultyContent

/-- The fault that is made on purpose. -/
def StoreError.injected : StoreError := .backend "write" "injected failure"

/-- The faulty store. -/
def Store.faulty : Store FaultyContent where
  config c := .ok c.tables.toTree
  write w c := if c.failAt = some c.writes then (.error .injected, c) else (.ok (), c.accept w)

end ConfigUpdate
