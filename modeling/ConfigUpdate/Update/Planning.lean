import ConfigUpdate.Diff
import ConfigUpdate.Gate.Basic
import ConfigUpdate.Plan.Search
import ConfigUpdate.Scope.Split
import ConfigUpdate.Update.Report
import ConfigUpdate.Update.Switch

/-!
# Planning an update

A plan is made scope by scope, and for all scopes before anything is written. In a scope the literal
operations pass the gate, then the differences between the configuration and the target; the oracle
has to accept the target; the differences are put into an order; and the moves in this order are
replayed to make sure that they lead to the target.
-/

namespace ConfigUpdate

/-- How updates are planned and made. -/
structure Updater where
  /-- What checks the edits. -/
  gate : Gate
  /-- What judges the trees. -/
  oracle : Oracle
  /-- How many states the search for an order may enter. -/
  budget : Nat
  /-- How the search recognises states. -/
  fingerprint : Fingerprint
  /-- Whether the switch has several chips. -/
  multiAsic : Bool
  /-- Whether updates are only planned. -/
  dryRun : Bool

namespace Updater

variable (u : Updater)

/-- Checks that moves lead from a tree to the target. -/
def checkReplay (current target : Value) (moves : List Move) : Except UpdateError Unit :=
  match Move.runAll current moves with
  | .error (i, _, cause) =>
    .error (.pathResolution (some i) (((moves[i]?).map (·.path.text)).getD "") cause)
  | .ok reached =>
    if reached == target then .ok ()
    else .error (.structural "sorted plan does not reproduce the target configuration" moves.length)

/-- The moves in a scope that turn the current configuration into the target. -/
def planScope (scope : Scope) (current target : Value) (literal : List Operation) :
    Except UpdateError (List Move) := do
  u.gate.checkOperations scope literal
  let moves := diff current target
  if moves.isEmpty then return []
  u.gate.checkMoves scope moves
  match u.oracle target with
  | .error r => throw (.structural ("target configuration is invalid: " ++ r.reason) 0)
  | .ok () => pure ()
  let sorted ← (Problem.mk u.oracle moves u.budget u.fingerprint).sort current
  checkReplay current target sorted
  return sorted

/-- The plans for the operations of a patch by scope. -/
def planGroups (s : Switch) :
    Dictionary Scope (List Operation) → Except UpdateError (List ScopePlan)
  | [] => .ok []
  | (scope, ops) :: groups => do
    let current ← s.config scope
    let target ← Operation.runAll current ops
    let moves ← u.planScope scope current target ops
    return ⟨scope, moves⟩ :: (← planGroups s groups)

/-- The plans for a patch. -/
def planPatch (s : Switch) (ops : List Operation) : Except UpdateError (List ScopePlan) := do
  u.planGroups s (← Scope.splitOperations u.multiAsic ops)

/-- The plans for targets by scope. -/
def planTargets (s : Switch) : Dictionary Scope Value → Except UpdateError (List ScopePlan)
  | [] => .ok []
  | (scope, target) :: targets => do
    if !target.isObject then
      throw (.invalidPatch ("configuration for " ++ scope.name ++ " must be an object, found "
        ++ target.kind))
    let current ← s.config scope
    let moves ← u.planScope scope current target []
    return ⟨scope, moves⟩ :: (← planTargets s targets)

/-- The plans for replacing the configuration. -/
def planReplace (s : Switch) (target : Value) : Except UpdateError (List ScopePlan) := do
  u.planTargets s (← Scope.splitConfig u.multiAsic target)

/-- The differences from targets by scope. -/
def diffTargets (s : Switch) : Dictionary Scope Value → Except UpdateError (List ScopePlan)
  | [] => .ok []
  | (scope, target) :: targets => do
    let current ← s.config scope
    return ⟨scope, diff current target⟩ :: (← diffTargets s targets)

/-- The differences between the configuration and a target, neither checked nor put into an order.
-/
def differences (s : Switch) (target : Value) : Except UpdateError (List ScopePlan) := do
  diffTargets s (← Scope.splitConfig u.multiAsic target)

end Updater

end ConfigUpdate
