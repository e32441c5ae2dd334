import ConfigUpdate.CommandLine.Arguments
import ConfigUpdate.Platform.Detection
import ConfigUpdate.Rules.Builtin
import ConfigUpdate.Rules.Document
import ConfigUpdate.Settings.Document
import ConfigUpdate.Update.Basic

/-!
# Running a command

A use of the program as a function on a disk: what it prints, how it exits, and the disk after it.
-/

namespace ConfigUpdate

/-- Why a command fails. -/
inductive CommandError where
  | update (cause : UpdateError)
  | rules (cause : RuleError)
  /-- The file of a configuration cannot be opened. -/
  | opening (scope : Scope) (cause : StoreError)
  /-- An argument names a file that cannot be read. -/
  | reading (path : String) (fault : DiskFault)
  /-- An argument names a file that is no configuration. -/
  | parsing (path : String)
  /-- A scope is named on a switch that has only one. -/
  | noScopes
  /-- The program has no access to database servers. -/
  | noServer
  deriving DecidableEq, Repr

/-- The messages of the error and of what caused it, outermost first. -/
def CommandError.trace : CommandError → List String
  | update cause => cause.trace
  | rules cause => cause.trace
  | opening scope cause => ("opening CONFIG_DB file for " ++ scope.name) :: cause.trace
  | reading path fault => ["reading " ++ path, fault.message]
  | parsing path => ["parsing " ++ path, parseFault]
  | noScopes => ["--scope is only valid on multi-ASIC switches"]
  | noServer => ["gcu was built without the redis feature"]

/-- The outcome of a use of the program. -/
structure Outcome where
  /-- The code with which it exits. -/
  exitCode : Nat
  /-- What it prints. -/
  output : String
  /-- What it says about its failure. -/
  complaint : String
  /-- The disk after it. -/
  disk : Disk
  deriving Repr

namespace CommandLine

/-- The result of an update, for a command. -/
def ofUpdate {α : Type} : Except UpdateError α → Except CommandError α
  | .ok a => .ok a
  | .error e => .error (.update e)

/-- The text of a file that an argument names. -/
def readArgument (disk : Disk) (path : String) : Except CommandError String :=
  match disk.fileText path with
  | .ok text => .ok text
  | .error fault => .error (.reading path fault)

/-- The scope to which a command is restricted. -/
def scopeOf (s : Settings) : Option String → Except CommandError (Option Scope)
  | none => .ok none
  | some name => do
    let scope ← ofUpdate (Scope.parse name)
    if s.multiAsic then return some scope else throw .noScopes

/-- The configuration in a file that an argument names, within a scope. -/
def readTarget (disk : Disk) (path : String) (scope : Option Scope) :
    Except CommandError Value := do
  match Json.parse? (← readArgument disk path) with
  | none => throw (.parsing path)
  | some config => return (scope.map (Scope.wrapConfig · config)).getD config

/-- The patch in a file that an argument names, within a scope. -/
def readPatch (disk : Disk) (path : String) (scope : Option Scope) :
    Except CommandError (List Operation) := do
  let ops ← ofUpdate (Patch.parse (← readArgument disk path))
  return (scope.map fun scope => ops.map (Operation.prefixed scope)).getD ops

/-- Opens the files of the configurations of some scopes. -/
def openFiles (s : Settings) (disk : Disk) :
    List Scope → Except CommandError (Dictionary Scope Database)
  | [] => .ok []
  | scope :: scopes => do
    let path := s.configPath scope
    match disk.readTree path with
    | .error e => throw (.opening scope e)
    | .ok _ => return Dictionary.insert (← openFiles s disk scopes) scope (.file path)

/-- Opens the stores of a switch. -/
def openSwitch (s : Settings) (disk : Disk) : Except CommandError Switch :=
  match s.store.kind with
  | .redis => .error .noServer
  | .file => do return ⟨← openFiles s disk s.scopes, disk⟩

/-- The files with what the device publishes. -/
def stateFiles (s : Settings) : Dictionary Scope String :=
  s.scopes.filterMap fun scope => (s.statePath? scope).map fun path => (scope, path)

/-- The rules in use. -/
def readRules (s : Settings) (disk : Disk) : Except CommandError RuleBook :=
  match s.rulesPath with
  | none => .ok RuleBook.builtin
  | some path =>
    match RuleBook.load disk path with
    | .ok book => .ok book
    | .error e => .error (.rules e)

/-- Sets up the updates of a switch. -/
def setUp (s : Settings) (dryRun : Bool) (disk : Disk) :
    Except CommandError (Updater × Switch) := do
  let switch ← openSwitch s disk
  let platform ← ofUpdate (Platform.detect disk s.versionPath Database.store
    (.file (s.configPath .host), disk) s.chassis)
  let rules ← readRules s disk
  let gate : Gate := ⟨platform, rules, DeviceState.ofFiles disk (stateFiles s)⟩
  let updater : Updater :=
    { gate, oracle := ReferenceRules.switch.oracle, budget := s.budget
      fingerprint := SearchState.fingerprint, multiAsic := s.multiAsic, dryRun }
  return (updater, switch)

/-- What a command prints, or why it fails, and the disk after it. -/
abbrev Result := Except CommandError String × Disk

/-- Makes an update and prints the report on it. -/
def runUpdate (s : Settings) (dryRun : Bool) (disk : Disk)
    (f : Updater → Switch → Except UpdateError UpdateReport × Switch) : Result :=
  match setUp s dryRun disk with
  | .error e => (.error e, disk)
  | .ok (u, switch) =>
    let (outcome, switch) := f u switch
    (ofUpdate (outcome.map fun report => Json.pretty report.toValue ++ "\n"), switch.disk)

/-- Keeps the configuration as a checkpoint. -/
def runCreate (s : Settings) (dryRun : Bool) (disk : Disk) (name : String) : Result :=
  match setUp s dryRun disk with
  | .error e => (.error e, disk)
  | .ok (u, switch) =>
    match u.createCheckpoint s.checkpointDirectory name switch with
    | .error e => (.error (.update e), disk)
    | .ok switch => (.ok ("Checkpoint " ++ name ++ " created\n"), switch.disk)

/-- Deletes a checkpoint. -/
def runDelete (s : Settings) (disk : Disk) (name : String) : Result :=
  match Checkpoint.delete s.checkpointDirectory name disk with
  | .error e => (.error (.update e), disk)
  | .ok disk => (.ok ("Checkpoint " ++ name ++ " deleted\n"), disk)

/-- The lines for the differences in a scope. -/
def planLines (p : ScopePlan) : String :=
  String.join (p.moves.map fun m =>
    p.scope.name ++ " " ++ Json.compact m.toOperation.toValue ++ "\n")

/-- Shows the differences from a target. -/
def showDifferences (s : Settings) (disk : Disk) (target : Value) : Except CommandError String := do
  let (u, switch) ← setUp s true disk
  let plans ← ofUpdate (u.differences switch target)
  return String.join (plans.map planLines)

/-- Runs a command within a scope. -/
def runIn (s : Settings) (dryRun : Bool) (scope : Option Scope) (disk : Disk) : Command → Result
  | .applyPatch path =>
    match readPatch disk path scope with
    | .error e => (.error e, disk)
    | .ok ops => runUpdate s dryRun disk fun u => u.applyPatch ops
  | .replace path =>
    match readTarget disk path scope with
    | .error e => (.error e, disk)
    | .ok target => runUpdate s dryRun disk fun u => u.replace target
  | .rollback name => runUpdate s dryRun disk fun u => u.rollback s.checkpointDirectory name
  | .createCheckpoint name => runCreate s dryRun disk name
  | .deleteCheckpoint name => runDelete s disk name
  | .listCheckpoints =>
    let names := ofUpdate (Checkpoint.list s.checkpointDirectory disk)
    (names.map fun names => String.join (names.map (· ++ "\n")), disk)
  | .diff path => ((readTarget disk path scope).bind (showDifferences s disk), disk)

/-- Runs a command. -/
def runCommand (s : Settings) (i : Invocation) (disk : Disk) : Result :=
  match scopeOf s i.scope with
  | .error e => (.error e, disk)
  | .ok scope => runIn s i.dryRun scope disk i.command

/-- The settings of a use of the program. -/
def settingsOf (i : Invocation) (disk : Disk) : Except SettingsError Settings := do
  let s ← Settings.loadOrDefault disk i.settingsPath
  s.check
  return s

/-- The complaint about a failure. -/
def complaint (trace : List String) : String :=
  "gcu: " ++ String.intercalate ": " trace ++ "\n"

/-- One use of the program. -/
def invoke (i : Invocation) (disk : Disk) : Outcome :=
  match settingsOf i disk with
  | .error e => ⟨1, "", complaint [e.message], disk⟩
  | .ok s =>
    match runCommand s i disk with
    | (.ok output, disk) => ⟨0, output, "", disk⟩
    | (.error e, disk) => ⟨1, "", complaint e.trace, disk⟩

/-- The commands and what they do. -/
def commandHelp : List (String × String) :=
  [("apply-patch", "Apply a JSON Patch file"),
    ("replace", "Replace the running configuration with a full configuration file"),
    ("rollback", "Restore a checkpoint"),
    ("create-checkpoint", "Save the running configuration as a checkpoint"),
    ("delete-checkpoint", "Delete a checkpoint"),
    ("list-checkpoints", "List checkpoints"),
    ("diff", "Show the moves needed to reach a configuration file, unordered"),
    ("help", "Print this message or the help of the given subcommand(s)")]

/-- The options and what they mean. -/
def optionHelp : List (String × String) :=
  [("-c, --config <CONFIG>",
      "Configuration file [default: " ++ Arguments.defaultSettingsPath ++ "]"),
    ("-l, --log-level <LOG_LEVEL>",
      "Log level (trace, debug, info, warn, error), overrides the config file"),
    ("-n, --dry-run", "Plan and validate without writing"),
    ("-s, --scope <SCOPE>",
      "Restrict the update to one scope (localhost, asic0, ...) on multi-ASIC switches"),
    ("-h, --help", "Print help"),
    ("-V, --version", "Print version")]

/-- Lines of two columns, the second of which starts at one place. -/
def columns (rows : List (String × String)) : String :=
  let width := (rows.map fun row => row.1.length).foldl max 0
  String.join (rows.map fun (name, help) =>
    "  " ++ name ++ String.ofList (List.replicate (width - name.length + 2) ' ') ++ help ++ "\n")

/-- How the program is used. -/
def usage : String :=
  "Generic Configuration Update engine for SONiC CONFIG_DB (diff, move sorter, field operation "
    ++ "validators, patch applier)\n\nUsage: gcu [OPTIONS] <COMMAND>\n\nCommands:\n"
    ++ columns commandHelp ++ "\nOptions:\n" ++ columns optionHelp

/-- Runs the program with the words of the command line. -/
def run (words : List String) (disk : Disk) : Outcome :=
  match Arguments.parse words with
  | .ok i => invoke i disk
  | .error .help => ⟨0, usage, "", disk⟩
  | .error .version => ⟨0, "gcu 0.1.0\n", "", disk⟩
  | .error .misuse => ⟨2, "", usage, disk⟩

end CommandLine

end ConfigUpdate
