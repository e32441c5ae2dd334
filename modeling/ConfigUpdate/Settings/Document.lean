import ConfigUpdate.Settings.Basic
import ConfigUpdate.Toml.Document

/-!
# Settings files

The written form of the settings: a TOML document with a section for each concern. Sections and
settings that are left out have their defaults, and unknown ones are skipped. A section may also be
written as an array of its settings in the order of their declaration.
-/

namespace ConfigUpdate

namespace Toml

/-- The text of a text. -/
def asText? : Toml → Option String
  | text s => some s
  | _ => none

/-- The truth value of a truth value. -/
def asBool? : Toml → Option Bool
  | boolean b => some b
  | _ => none

/-- A natural number below a bound. -/
def asNat? (bound : Nat) : Toml → Option Nat
  | integer (.ofNat n) => if n < bound then some n else none
  | _ => none

/-- The items of an array. -/
def asItems? : Toml → Option (List Toml)
  | array items | tables items => some items
  | _ => none

/-- The members of a section whose settings have some names. -/
def section? (names : List String) : Toml → Option Members
  | table _ ms => some ms
  | array items | tables items => some (names.zip items)
  | _ => none

/-- A setting that may be left out. -/
def optional {α : Type} (ms : Members) (name : String) (read : Toml → Option α) :
    Option (Option α) :=
  match Dictionary.get? ms name with
  | none => some none
  | some v => (read v).map some

/-- A setting that has a default. -/
def setting {α : Type} (ms : Members) (name : String) (default : α) (read : Toml → Option α) :
    Option α :=
  (optional ms name read).map (·.getD default)

end Toml

namespace Settings

open Toml

/-- The bound of the numbers of ports. -/
def portBound : Nat := UInt16.size

/-- The bound of the number of states. -/
def budgetBound : Nat := UInt64.size

/-- The kind of store that a word names. -/
def storeKindOfWord? : String → Option StoreKind
  | "json" => some .file
  | "redis" => some .redis
  | _ => none

/-- The kind of store that a value names: a word, or a table with it as the only name and nothing
for it. -/
def storeKind? : Toml → Option StoreKind
  | .text word => storeKindOfWord? word
  | .table _ [(word, .array [])] | .table _ [(word, .table _ [])] => storeKindOfWord? word
  | _ => none

/-- Reads the section of the stores. -/
def readStore (v : Toml) : Option StoreSettings := do
  let ms ← section? ["backend", "config_db_path", "state_db_path", "redis_host", "redis_port"] v
  let d : StoreSettings := {}
  return { kind := ← setting ms "backend" d.kind storeKind?
           configPath := ← setting ms "config_db_path" d.configPath asText?
           statePath := ← optional ms "state_db_path" asText?
           redisHost := ← setting ms "redis_host" d.redisHost asText?
           redisPort := ← setting ms "redis_port" d.redisPort (asNat? portBound) }

/-- Reads the settings of a namespace. -/
def readNamespace (v : Toml) : Option NamespaceSettings := do
  let ms ← section? ["name", "config_db_path", "state_db_path", "redis_host", "redis_port"] v
  return { name := ← (← optional ms "name" asText?)
           configPath := ← optional ms "config_db_path" asText?
           statePath := ← optional ms "state_db_path" asText?
           redisHost := ← optional ms "redis_host" asText?
           redisPort := ← optional ms "redis_port" (asNat? portBound) }

/-- Reads a list of namespaces. -/
def readNamespaces (v : Toml) : Option (List NamespaceSettings) := do
  (← asItems? v).mapM readNamespace

/-- Reads the section of a name; without it nothing is set. -/
def sectionOf (ms : Members) (name : String) (settings : List String) : Option Members :=
  setting ms name [] (section? settings)

/-- The settings in the members of a document. -/
def ofMembers? (ms : Members) : Option Settings := do
  let d : Settings := {}
  let store ← setting ms "store" d.store readStore
  let chips ← sectionOf ms "multi_asic" ["enabled", "namespaces"]
  let checks ← sectionOf ms "validator" ["rules_path", "version_file", "chassis"]
  let sorter ← sectionOf ms "sorter" ["node_budget"]
  let checkpoints ← sectionOf ms "checkpoint" ["dir"]
  let logging ← sectionOf ms "logging" ["level", "json"]
  return { store
           multiAsic := ← setting chips "enabled" d.multiAsic asBool?
           namespaces := ← setting chips "namespaces" d.namespaces readNamespaces
           rulesPath := ← optional checks "rules_path" asText?
           versionPath := ← setting checks "version_file" d.versionPath asText?
           chassis := ← optional checks "chassis" asBool?
           budget := ← setting sorter "node_budget" d.budget (asNat? budgetBound)
           checkpointDirectory := ← setting checkpoints "dir" d.checkpointDirectory asText?
           logLevel := ← setting logging "level" d.logLevel asText?
           logJson := ← setting logging "json" d.logJson asBool? }

/-- Reads the settings in a document, which comes from `origin`. -/
def parse (content origin : String) : Except SettingsError Settings :=
  match (Toml.parse? content).bind ofMembers? with
  | some s => .ok s
  | none => .error (.unreadable origin)

/-- Reads the settings in a file. -/
def load (disk : Disk) (path : String) : Except SettingsError Settings :=
  match disk.fileText path with
  | .ok content => parse content path
  | .error fault => .error (.disk path fault)

/-- Reads the settings in a file; without the file all have their defaults. -/
def loadOrDefault (disk : Disk) (path : String) : Except SettingsError Settings :=
  match disk.fileText path with
  | .ok content => parse content path
  | .error .notFound => .ok {}
  | .error fault => .error (.disk path fault)

end Settings

end ConfigUpdate
