import ConfigUpdate.Key
import ConfigUpdate.Patch.Move

/-!
# The preferred order of moves

The order in which a plan tries moves: an addition to an entity comes before a removal from it, the
removal of a child before the removal of its parent, and all else stays as it is given. Of the moves
that may come next, the one that is given first does.
-/

namespace ConfigUpdate

namespace Move

/-- The entity that a move touches: the table and the first component of the key. -/
def entity? (m : Move) : Option (String × String) := do
  let table ← m.path.table?
  let key ← m.path.entryKey?
  return (table, (EntryKey.ofText key).base)

/-- Whether one removal has to come before another one. -/
def removedBefore (child parent : Move) : Bool :=
  child.path.isBelow parent.path ||
    (parent.path.length == 2 && 2 ≤ child.path.length
      && child.path.table? == parent.path.table?
      && match child.path.entryKey?, parent.path.entryKey? with
        | some c, some p => (EntryKey.ofText p).isAncestorOf (EntryKey.ofText c)
        | _, _ => false)

/-- Whether one move is preferred before another one. -/
def precedes (first second : Move) : Bool :=
  second.kind == .remove &&
    match first.kind with
    | .add => first.entity?.isSome && first.entity? == second.entity?
    | .remove => first.removedBefore second
    | .replace => false

end Move

/-- A move that waits to be placed: its position and the positions that have to come before it. -/
structure Waiting where
  /-- The position of the move in its list. -/
  index : Nat
  /-- The positions that have not been placed but have to be. -/
  before : List Nat
  deriving DecidableEq, Repr

/-- The moves of a list, all waiting. -/
def waitingOf (moves : List Move) : List Waiting :=
  let numbered := moves.zipIdx
  numbered.map fun (m, i) =>
    ⟨i, numbered.filterMap fun (m', j) => if j ≠ i ∧ m'.precedes m then some j else none⟩

/-- Places the first move that waits for none, again and again; `fuel` bounds the number of moves.
Moves that wait for one another are placed as they stand. -/
def place : Nat → List Waiting → List Nat
  | 0, ws => ws.map (·.index)
  | fuel + 1, ws =>
    match ws.find? (·.before.isEmpty) with
    | none => ws.map (·.index)
    | some w =>
      w.index :: place fuel ((ws.filter (·.index != w.index)).map fun v =>
        { v with before := v.before.filter (· != w.index) })

/-- The positions of the moves in the preferred order. -/
def preferenceOrder (moves : List Move) : List Nat :=
  place moves.length (waitingOf moves)

end ConfigUpdate
