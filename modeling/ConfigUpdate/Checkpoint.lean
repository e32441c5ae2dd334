import ConfigUpdate.Json.Printer
import ConfigUpdate.Json.Reader
import ConfigUpdate.Path
import ConfigUpdate.Update.Error

/-!
# Checkpoints

A checkpoint is a configuration that is kept under a name, as a file in a directory of checkpoints.
Names are such that they are safe as names of files.
-/

namespace ConfigUpdate.Checkpoint

/-- What the name of a checkpoint is followed by in the name of its file. -/
def fileEnding : String := ".cp.json"

/-- The length of the longest name. -/
def nameLimit : Nat := 128

/-- Whether a character can start a name. -/
def canStart (c : Char) : Bool :=
  c.isAlphanum

/-- Whether a character can go on in a name. -/
def canContinue (c : Char) : Bool :=
  c.isAlphanum || c == '_' || c == '.' || c == '-'

/-- Whether a text can be the name of a checkpoint. -/
def isName (name : String) : Bool :=
  match name.toList with
  | [] => false
  | c :: cs => canStart c && cs.all canContinue && cs.length < nameLimit

/-- Refuses what cannot be a name. -/
def checkName (name : String) : Except UpdateError Unit :=
  if isName name then .ok ()
  else
    .error (.checkpoint name ("names must start with a letter or digit and contain only letters, "
      ++ "digits, '_', '-' or '.'"))

/-- The path of the file of a checkpoint. -/
def filePath (directory name : String) : String :=
  Path.inside directory (name ++ fileEnding)

/-- The failure because of a fault of the disk. -/
def diskFailure (name : String) : DiskFault → UpdateError
  | .notFound => .checkpoint name "checkpoint does not exist"
  | fault => .checkpoint name fault.message

/-- Keeps a configuration under a name, in place of an earlier one: the path of its file, and the
disk after it. -/
def create (directory name : String) (config : Value) (disk : Disk) :
    Except UpdateError (String × Disk) := do
  checkName name
  let path := filePath directory name
  let written : Except DiskFault Disk := do
    let disk ← disk.createDirectories directory
    disk.writeFile path (Json.pretty config)
  match written with
  | .ok disk => return (path, disk)
  | .error fault => throw (.checkpoint name fault.message)

/-- The configuration under a name. -/
def load (directory name : String) (disk : Disk) : Except UpdateError Value := do
  checkName name
  match disk.fileText (filePath directory name) with
  | .error fault => throw (diskFailure name fault)
  | .ok text =>
    match Json.parse? text with
    | none => throw (.checkpoint name ("invalid checkpoint file: " ++ parseFault))
    | some config =>
      if config.isObject then return config
      else throw (.checkpoint name "checkpoint is not a configuration object")

/-- Deletes the checkpoint of a name. -/
def delete (directory name : String) (disk : Disk) : Except UpdateError Disk := do
  checkName name
  match disk.removeFile (filePath directory name) with
  | .ok disk => return disk
  | .error fault => throw (diskFailure name fault)

/-- Whether there is a checkpoint of a name. -/
def contains (directory name : String) (disk : Disk) : Bool :=
  isName name && disk.hasFile (filePath directory name)

/-- The name of the checkpoint in a file of a name. -/
def nameOfFile? (file : String) : Option String :=
  let ending := fileEnding.toList
  let cs := file.toList
  if ending.isSuffixOf cs then
    let name := String.ofList (cs.take (cs.length - ending.length))
    if isName name then some name else none
  else none

/-- The names of all checkpoints in ascending order. Without the directory there are none. -/
def list (directory : String) (disk : Disk) : Except UpdateError (List String) :=
  match disk.listDirectory directory with
  | .ok files => .ok ((files.filterMap nameOfFile?).mergeSort fun a b => a ≤ b)
  | .error .notFound => .ok []
  | .error fault => .error (.checkpoint "*" fault.message)

end ConfigUpdate.Checkpoint
