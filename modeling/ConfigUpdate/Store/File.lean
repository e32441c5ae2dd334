import ConfigUpdate.Json.Printer
import ConfigUpdate.Json.Reader
import ConfigUpdate.Store.Basic

/-!
# Stores in files

A configuration as a JSON file. It is read for every call, and written as a whole for every write.
-/

namespace ConfigUpdate

/-- The tree in a file. -/
def Disk.readTree (disk : Disk) (path : String) : Except StoreError Value :=
  match disk.fileText path with
  | .error fault => .error (.disk path fault)
  | .ok text =>
    match Json.parse? text with
    | some tree => .ok tree
    | none => .error (.unreadable path)

/-- Writes a tree into a file, whose last line is complete. -/
def Disk.writeTree (disk : Disk) (path : String) (tree : Value) : Except StoreError Disk :=
  match disk.writeFile path (Json.pretty tree ++ "\n") with
  | .error fault => .error (.disk path fault)
  | .ok disk => .ok disk

/-- The store in a file. -/
def Store.file (path : String) : Store Disk where
  config disk := disk.readTree path
  write w disk :=
    match disk.readTree path with
    | .error e => (.error e, disk)
    | .ok tree =>
      match disk.writeTree path (w.run (.ofTree tree)).toTree with
      | .error e => (.error e, disk)
      | .ok disk => (.ok (), disk)

end ConfigUpdate
