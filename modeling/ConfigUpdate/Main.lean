import ConfigUpdate.CommandLine.Reach
import ConfigUpdate.CommandLine.Run

/-!
# The program

Fetches what a command may read, runs it on the disk made of that, and writes what has changed. All
decisions are taken by `CommandLine.run`.
-/

namespace ConfigUpdate

namespace Program

/-- The place of a path from the root of the disk. -/
def placeOf (path : String) : Place :=
  (Text.split '/' path).filter (· != "")

/-- Adds the file or directory at a path; without either the disk stays as it is. -/
def fetch (disk : Disk) (path : String) : IO Disk := do
  match ← (IO.FS.readFile path).toBaseIO with
  | .ok text => return disk.install path text
  | .error _ =>
    if ← ((← IO.currentDir) / path).isDir then
      return ((disk.createDirectories path).toOption).getD disk
    return disk

/-- Adds a directory and the files in it. -/
def fetchDirectory (disk : Disk) (path : String) : IO Disk := do
  let disk ← fetch disk path
  match ← ((← IO.currentDir) / path).readDir.toBaseIO with
  | .ok entries =>
    entries.foldlM (fun disk entry => fetch disk (Path.inside path entry.fileName)) disk
  | .error _ => return disk

/-- Adds what a use of the program may read. -/
def fetchAll (i : Invocation) (disk : Disk) : IO Disk := do
  let disk ← fetch disk i.settingsPath
  match CommandLine.settingsOf i disk with
  | .error _ => return disk
  | .ok s => fetchDirectory (← (CommandLine.reach i s).foldlM fetch disk) s.checkpointDirectory

/-- Writes a file, or removes the one at a place. -/
def writeBack : Place × Option String → IO Unit
  | (place, some text) => do
    IO.FS.createDirAll ("/" ++ String.intercalate "/" place.dropLast)
    IO.FS.writeFile ("/" ++ String.intercalate "/" place) text
  | (place, none) => IO.FS.removeFile ("/" ++ String.intercalate "/" place)

end Program

end ConfigUpdate

open ConfigUpdate Program in
/-- Runs the program with the words of the command line. -/
def main (words : List String) : IO UInt32 := do
  let blank := Disk.blank (placeOf (← IO.currentDir).toString)
  let disk ← match Arguments.parse words with
    | .ok i => fetchAll i blank
    | .error _ => pure blank
  let outcome := CommandLine.run words disk
  (disk.changes outcome.disk).forM writeBack
  IO.print outcome.output
  IO.eprint outcome.complaint
  return outcome.exitCode.toUInt32
