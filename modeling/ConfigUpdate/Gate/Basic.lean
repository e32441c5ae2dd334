import ConfigUpdate.Gate.Port
import ConfigUpdate.Gate.Traffic

/-!
# The gate

Every edit of an update passes the gate before anything is written, and one refusal stops the whole
update. Some edits are refused on every switch; the others are checked table by table. An edit of
the whole configuration counts as one edit of every table in its value.
-/

namespace ConfigUpdate

/-- The checks of the tables. -/
inductive TableCheck where
  | port
  | traffic
  | bufferProfile
  deriving DecidableEq, Repr

namespace TableCheck

/-- The name of the check. -/
def name : TableCheck → String
  | port => PortCheck.name
  | traffic => TrafficCheck.name
  | bufferProfile => TrafficCheck.profileName

/-- The checks of a table, in the order in which they are made. -/
def ofTable : String → List TableCheck
  | "PORT" => [port]
  | "PFC_WD" | "BUFFER_POOL" => [traffic]
  | "BUFFER_PROFILE" => [bufferProfile]
  | _ => []

end TableCheck

/-- A node that may never be removed. -/
structure ProtectedNode where
  /-- The written form of its pointer. -/
  path : String
  /-- Why it has to stay. -/
  reason : String
  deriving DecidableEq, Repr

/-- The nodes that may never be removed. -/
def protectedNodes : List ProtectedNode :=
  [⟨"/PFC_WD/GLOBAL/POLL_INTERVAL", "the PFC watchdog poll interval cannot be removed"⟩,
    ⟨"/LOOPBACK_INTERFACE/Loopback0", "Loopback0 carries the router ID and cannot be removed"⟩]

/-- What the gate knows. -/
structure Gate where
  /-- The switch. -/
  platform : Platform
  /-- The rules about fields. -/
  rules : RuleBook
  /-- What the device publishes. -/
  state : DeviceState

namespace Gate

/-- Refuses the removal of a protected node. -/
def checkProtected (e : Edit) : Except UpdateError Unit :=
  if e.verb = .remove then
    match protectedNodes.find? (·.path == e.path.text) with
    | some node => .error (e.refuse "static" e.placeInTable node.reason)
    | none => .ok ()
  else .ok ()

/-- Makes a check of a table. -/
def checkTable (g : Gate) (scope : Scope) (e : Edit) : TableCheck → Except UpdateError Unit
  | .port => PortCheck.check g.platform.chassis g.state scope e
  | .traffic => TrafficCheck.check g.platform g.rules e
  | .bufferProfile => TrafficCheck.checkProfile g.platform g.rules e

/-- Checks an edit that is not of the whole configuration. -/
def checkBelowRoot (g : Gate) (scope : Scope) (e : Edit) : Except UpdateError Unit := do
  checkProtected e
  (TableCheck.ofTable e.table).forM (g.checkTable scope e)

/-- An edit of the whole configuration as edits of the tables in its value. -/
def editsOfTables (e : Edit) : List Edit :=
  ((e.value.bind Value.members?).getD []).map fun (table, value) =>
    ⟨e.verb, [.key table], some value⟩

/-- Checks an edit. -/
def check (g : Gate) (scope : Scope) (e : Edit) : Except UpdateError Unit :=
  if e.path.isEmpty then (editsOfTables e).forM (g.checkBelowRoot scope)
  else g.checkBelowRoot scope e

/-- Checks the moves of a plan. -/
def checkMoves (g : Gate) (scope : Scope) (moves : List Move) : Except UpdateError Unit :=
  moves.forM fun m => g.check scope m.edit

/-- Checks the operations of a patch; tests change nothing and always pass. -/
def checkOperations (g : Gate) (scope : Scope) (ops : List Operation) : Except UpdateError Unit :=
  (ops.filter (·.verb != .test)).forM fun op => g.check scope op.edit

end Gate

end ConfigUpdate
