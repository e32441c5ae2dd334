import ConfigUpdate.Plan.Oracle
import ConfigUpdate.Plan.Preference
import Std.Data.HashSet.Basic

/-!
# The search for an order

Finds an order of moves in which every move finds what it expects and the oracle accepts the tree
after each. The search goes depth first through the states that the moves can reach, tries the moves
in the preferred order, enters no state twice and gives up after a number of states. Two states
count as one if they have the same fingerprint.
-/

namespace ConfigUpdate

/-- A state of the search: a tree and the positions of the moves that are still to come. -/
structure SearchState where
  /-- The tree so far. -/
  tree : Value
  /-- The positions of the moves that are left, in the preferred order. -/
  remaining : List Nat
  deriving Repr

/-- A number by which a state is recognised. -/
abbrev Fingerprint := SearchState → UInt64

/-- The fingerprint in use, which equal trees share. -/
def SearchState.fingerprint : Fingerprint := fun s =>
  Mix.numbers s.tree.mix s.remaining

/-- What the search has seen so far. -/
structure Memory where
  /-- The fingerprints of the states that were entered. -/
  visited : Std.HashSet UInt64
  /-- The positions of the moves that once found what they expect. -/
  held : List Nat
  /-- The latest fault of each move that found something else. -/
  faults : Dictionary Nat PreconditionError
  /-- The latest refusal of the oracle. -/
  rejection : Option Rejection
  /-- The number of states that were entered after the first one. -/
  explored : Nat

namespace Memory

/-- The memory before the search, in which only the first state has been entered. -/
def start (fingerprint : UInt64) : Memory :=
  ⟨Std.HashSet.emptyWithCapacity.insert fingerprint, [], [], none, 0⟩

/-- Keeps that a move found what it expects. -/
def hold (mem : Memory) (i : Nat) : Memory :=
  if mem.held.contains i then mem else { mem with held := i :: mem.held }

/-- Keeps the fault of a move. -/
def fail (mem : Memory) (i : Nat) (e : PreconditionError) : Memory :=
  { mem with faults := mem.faults.insert i e }

/-- Keeps a refusal. -/
def reject (mem : Memory) (r : Rejection) : Memory :=
  { mem with rejection := some r }

/-- Keeps that a state has been entered. -/
def enter (mem : Memory) (fingerprint : UInt64) : Memory :=
  { mem with visited := mem.visited.insert fingerprint, explored := mem.explored + 1 }

end Memory

/-- How the search ends below a state. -/
inductive Verdict where
  /-- The moves left can be made in this order. -/
  | found (order : List Nat)
  /-- No order leads on from here. -/
  | deadEnd
  /-- There are too many states. -/
  | outOfBudget
  deriving DecidableEq, Repr

/-- What a search is about. -/
structure Problem where
  /-- The judgement on trees. -/
  oracle : Oracle
  /-- The moves to be ordered. -/
  moves : List Move
  /-- How many states may be entered. -/
  budget : Nat
  /-- How states are recognised. -/
  fingerprint : Fingerprint

namespace Problem

variable (p : Problem)

/-- Tries the moves at some positions from a state, where `below` searches on from the state after a
move. -/
def tryEach (below : SearchState → Memory → Verdict × Memory) (s : SearchState) :
    List Nat → Memory → Verdict × Memory
  | [], mem => (.deadEnd, mem)
  | i :: is, mem =>
    match p.moves[i]? with
    | none => tryEach below s is mem
    | some m =>
      match m.check s.tree with
      | .error e => tryEach below s is (mem.fail i e)
      | .ok () =>
        let mem := mem.hold i
        match m.run s.tree with
        | .error e => tryEach below s is (mem.fail i (.unresolvable e))
        | .ok tree =>
          match p.oracle tree with
          | .error r => tryEach below s is (mem.reject r)
          | .ok () =>
            let next : SearchState := ⟨tree, s.remaining.erase i⟩
            let print := p.fingerprint next
            if mem.visited.contains print then tryEach below s is mem
            else
              let mem := mem.enter print
              if p.budget < mem.explored then (.outOfBudget, mem)
              else
                match below next mem with
                | (.found order, mem) => (.found (i :: order), mem)
                | (.deadEnd, mem) => tryEach below s is mem
                | (.outOfBudget, mem) => (.outOfBudget, mem)

/-- Searches on from a state in which `n` moves are left. -/
def searchFrom : Nat → SearchState → Memory → Verdict × Memory
  | 0, _, mem => (.found [], mem)
  | n + 1, s, mem => p.tryEach (searchFrom n) s s.remaining mem

/-- Searches from a tree. -/
def search (current : Value) : Verdict × Memory :=
  let s : SearchState := ⟨current, preferenceOrder p.moves⟩
  p.searchFrom p.moves.length s (Memory.start (p.fingerprint s))

/-- Why there is no order, from what the search has seen: the first move that never found what it
expects, or else the latest refusal. -/
def failure (mem : Memory) : UpdateError :=
  match p.moves.zipIdx.find? fun (_, i) => !mem.held.contains i with
  | some (m, i) =>
    let cause := (mem.faults.get? i).getD (.alreadyPresent m.path.text)
    .pathResolution (some i) m.path.text cause
  | none =>
    .structural ((mem.rejection.map (·.reason)).getD "no ordering applies every move") mem.explored

/-- The moves in an order in which they can be made one after another. -/
def sort (current : Value) : Except UpdateError (List Move) :=
  if p.moves.isEmpty then .ok []
  else
    match p.search current with
    | (.found order, _) => .ok (order.filterMap (p.moves[·]?))
    | (.deadEnd, mem) => .error (p.failure mem)
    | (.outOfBudget, mem) =>
      .error (.structural ("node budget of " ++ toString p.budget ++ " exhausted") mem.explored)

end Problem

/-- How many states a search may enter if nothing else is said. -/
def defaultBudget : Nat := 10000

end ConfigUpdate
