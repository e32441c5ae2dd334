import ConfigUpdate.Patch.Move
import ConfigUpdate.Scope.Basic

/-!
# Plans and reports

What an update is going to do in each scope, and what it did.
-/

namespace ConfigUpdate

/-- The moves that are to be made in a scope, in order. -/
structure ScopePlan where
  /-- The scope. -/
  scope : Scope
  /-- The moves. -/
  moves : List Move
  deriving Repr, Inhabited

/-- What was done in a scope. -/
structure ScopeReport where
  /-- The scope. -/
  scope : Scope
  /-- The moves of the plan, as operations of a patch. -/
  moves : List Operation
  /-- How many of them were made. -/
  committed : Nat
  deriving Repr, Inhabited

/-- The report about a plan of which some moves were made. -/
def ScopePlan.report (p : ScopePlan) (committed : Nat) : ScopeReport :=
  ⟨p.scope, p.moves.map Move.toOperation, committed⟩

/-- What an update did. -/
structure UpdateReport where
  /-- Whether it was only planned. -/
  dryRun : Bool
  /-- What was done in each scope. -/
  scopes : List ScopeReport
  deriving Repr, Inhabited

namespace UpdateReport

/-- How many moves there are in all scopes. -/
def totalMoves (r : UpdateReport) : Nat :=
  (r.scopes.map (·.moves.length)).foldr (· + ·) 0

/-- How many moves were made in all scopes. -/
def totalCommitted (r : UpdateReport) : Nat :=
  (r.scopes.map (·.committed)).foldr (· + ·) 0

/-- A number as a value. -/
def count (n : Nat) : Value :=
  .scalar (.number (.integer n))

/-- The report on a scope as the members of an object, in the order in which they are written. -/
def scopeToValue (s : ScopeReport) : Value :=
  .object [("scope", .ofString s.scope.name), ("moves", .array (s.moves.map Operation.toValue)),
    ("committed", count s.committed)]

/-- The report as the members of an object, in the order in which they are written. -/
def toValue (r : UpdateReport) : Value :=
  .object [("dry_run", .scalar (.bool r.dryRun)), ("scopes", .array (r.scopes.map scopeToValue))]

end UpdateReport

end ConfigUpdate
