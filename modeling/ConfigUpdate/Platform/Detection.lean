import ConfigUpdate.Platform.Basic
import ConfigUpdate.Store.Basic
import ConfigUpdate.Update.Error
import ConfigUpdate.Yaml.Document

/-!
# Recognising the platform

The facts about a switch come from the file of the version of its software and from its
configuration.
-/

namespace ConfigUpdate

/-- The facts in a version file. -/
structure VersionFacts where
  /-- The version of the software. -/
  version : String
  /-- The type of the chips. -/
  chipType : String
  deriving DecidableEq, Repr

namespace VersionFacts

/-- A fact by its name: a text that is written at most once, and empty if it is not there. -/
def fact? (members : List (String × Yaml)) (name : String) : Option String :=
  match members.filter (·.1 == name) with
  | [] => some ""
  | [(_, .text s)] => some s
  | _ => none

/-- The facts in a document. -/
def ofYaml? : Yaml → Option VersionFacts
  | .mapping members => do
    return ⟨← fact? members "build_version", ← fact? members "asic_type"⟩
  | _ => none

end VersionFacts

namespace Platform

/-- The types of switches that are cards of a chassis. -/
def chassisTypes : List String := ["voq", "chassis-packet", "fabric"]

/-- Reads the version file. -/
def readVersion (disk : Disk) (path : String) : Except UpdateError VersionFacts :=
  match disk.fileText path with
  | .error fault => .error (.platform ("reading " ++ path ++ ": " ++ fault.message))
  | .ok text =>
    match (Yaml.parse? text).bind VersionFacts.ofYaml? with
    | some facts => .ok facts
    | none => .error (.platform ("parsing " ++ path ++ ": " ++ parseFault))

/-- The platform of a switch with some facts and an entry about itself. -/
def ofEntry (facts : VersionFacts) (entry : Option Value) (chassis : Option Bool) : Platform :=
  let field (name : String) : String :=
    ((entry.bind (·.get? name)).bind Value.fieldText?).getD ""
  ⟨facts.chipType, field "hwsku", facts.version,
    chassis.getD (chassisTypes.contains (field "switch_type"))⟩

/-- Recognises the platform from the version file and the configuration in a store. Whether it is a
card of a chassis can be said in advance. -/
def detect {σ : Type} (disk : Disk) (versionPath : String) (store : Store σ) (s : σ)
    (chassis : Option Bool) : Except UpdateError Platform := do
  let facts ← readVersion disk versionPath
  match store.entryAt? s "DEVICE_METADATA" "localhost" with
  | .ok entry => return ofEntry facts entry chassis
  | .error e => throw (.store e)

end Platform

end ConfigUpdate
