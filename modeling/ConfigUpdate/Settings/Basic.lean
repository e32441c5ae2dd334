import ConfigUpdate.Path
import ConfigUpdate.Plan.Search
import ConfigUpdate.Scope.Basic
import ConfigUpdate.Text.Lowercase

/-!
# Settings

What an operator sets once for a switch: where its configurations are, which scopes it has, and how
updates are checked and planned. On a switch with several chips the places of a chip are derived
from those of the host, unless its namespace names others.
-/

namespace ConfigUpdate

/-- Where configurations are kept. -/
inductive StoreKind where
  | file
  | redis
  deriving DecidableEq, Repr, Inhabited

/-- The word for a kind of store. -/
def StoreKind.word : StoreKind → String
  | file => "json"
  | redis => "redis"

/-- The settings of the stores of the host, and of the other ones where nothing else is said. -/
structure StoreSettings where
  /-- Where configurations are kept. -/
  kind : StoreKind := .file
  /-- The file of the configuration. -/
  configPath : String := "/etc/sonic/config_db.json"
  /-- The file with what the device publishes. -/
  statePath : Option String := none
  /-- The host of the database server. -/
  redisHost : String := "127.0.0.1"
  /-- The port of the database server. -/
  redisPort : Nat := 6379
  deriving DecidableEq, Repr, Inhabited

/-- The settings of the namespace of a chip. -/
structure NamespaceSettings where
  /-- The name of the scope. -/
  name : String
  /-- The file of the configuration. -/
  configPath : Option String := none
  /-- The file with what the device publishes. -/
  statePath : Option String := none
  /-- The host of the database server. -/
  redisHost : Option String := none
  /-- The port of the database server. -/
  redisPort : Option Nat := none
  deriving DecidableEq, Repr, Inhabited

/-- The settings. -/
structure Settings where
  /-- The stores. -/
  store : StoreSettings := {}
  /-- Whether the switch has several chips. -/
  multiAsic : Bool := false
  /-- The namespaces of the chips. -/
  namespaces : List NamespaceSettings := []
  /-- The file of the rules, in place of those that are built in. -/
  rulesPath : Option String := none
  /-- The file of the version of the software. -/
  versionPath : String := "/etc/sonic/sonic_version.yml"
  /-- Whether the switch is a card of a chassis; otherwise its configuration tells. -/
  chassis : Option Bool := none
  /-- How many states the search for an order may enter. -/
  budget : Nat := defaultBudget
  /-- The directory of the checkpoints. -/
  checkpointDirectory : String := "/etc/sonic/checkpoints"
  /-- The least level of what is logged. -/
  logLevel : String := "info"
  /-- Whether the log consists of JSON lines. -/
  logJson : Bool := false
  deriving DecidableEq, Repr, Inhabited

namespace Settings

/-- The levels of the log. -/
def logLevels : List String := ["trace", "debug", "info", "warn", "error"]

/-- Refuses a setting if a condition holds. -/
def refuseIf (condition : Bool) (field message : String) : Except SettingsError Unit :=
  if condition then .error (.invalid field message) else .ok ()

/-- Whether a name is the one of a namespace. -/
def isNamespace (name : String) : Bool :=
  match Scope.ofName? name with
  | some (.asic _) => true
  | _ => false

/-- Refuses the settings of a namespace that cannot be. -/
def checkNamespace (ns : NamespaceSettings) : Except SettingsError Unit := do
  refuseIf (!isNamespace ns.name) "multi_asic.namespaces"
    ("'" ++ ns.name ++ "' is not an ASIC namespace")
  refuseIf (ns.redisPort == some 0) ("multi_asic.namespaces." ++ ns.name ++ ".redis_port")
    "must be > 0"

/-- Refuses settings that cannot be. -/
def check (s : Settings) : Except SettingsError Unit := do
  refuseIf (s.store.kind == .redis && s.store.redisPort == 0) "store.redis_port" "must be > 0"
  refuseIf (s.store.configPath == "") "store.config_db_path" "must not be empty"
  refuseIf (s.budget == 0) "sorter.node_budget" "must be > 0"
  refuseIf (!logLevels.contains (Text.toLower s.logLevel)) "logging.level"
    ("'" ++ s.logLevel ++ "' is not one of " ++ String.intercalate ", " logLevels)
  s.namespaces.forM checkNamespace

/-- The scopes of the switch: the host, and the chips in ascending order. -/
def scopes (s : Settings) : List Scope :=
  .host ::
    if s.multiAsic then
      let chips := (s.namespaces.filterMap fun ns => Scope.ofName? ns.name).filter (· != .host)
      (Dictionary.ofList (chips.map fun scope => (scope, ()))).keys
    else []

/-- The settings of the namespace of a scope: the first ones with exactly its name. -/
def namespaceOf? (s : Settings) (scope : Scope) : Option NamespaceSettings := do
  let name ← scope.namespace?
  s.namespaces.find? (·.name == name)

/-- The file of the configuration of a scope. -/
def configPath (s : Settings) : Scope → String
  | .host => s.store.configPath
  | .asic id =>
    ((s.namespaceOf? (.asic id)).bind (·.configPath)).getD (Path.numbered s.store.configPath id)

/-- The file with what the device publishes for a scope. -/
def statePath? (s : Settings) : Scope → Option String
  | .host => s.store.statePath
  | .asic id =>
    ((s.namespaceOf? (.asic id)).bind (·.statePath)) <|>
      s.store.statePath.map (Path.numbered · id)

/-- The host and the port of the database server of a scope. -/
def redisEndpoint (s : Settings) (scope : Scope) : String × Nat :=
  let ns := s.namespaceOf? scope
  ((ns.bind (·.redisHost)).getD s.store.redisHost, (ns.bind (·.redisPort)).getD s.store.redisPort)

end Settings

end ConfigUpdate
