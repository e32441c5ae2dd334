import ConfigUpdate.Path

/-!
# Disks

The files and directories that the program reads and writes, as a value: an operation answers with
its result or the fault, and with the disk after it. Paths are resolved as on any Unix system, from
a working directory, with `.` and `..`; there are no links and no permissions.
-/

namespace ConfigUpdate

/-- Why the disk refuses an operation. -/
inductive DiskFault where
  | notFound
  | occupied
  | notDirectory
  | isDirectory
  | nameTooLong
  /-- The path holds a character that no name can hold. -/
  | unusableName
  deriving DecidableEq, Repr

/-- The message of the fault. -/
def DiskFault.message : DiskFault → String
  | notFound => "No such file or directory (os error 2)"
  | occupied => "File exists (os error 17)"
  | notDirectory => "Not a directory (os error 20)"
  | isDirectory => "Is a directory (os error 21)"
  | nameTooLong => "File name too long (os error 36)"
  | unusableName => "file name contained an unexpected NUL byte"

/-- What stands at a place of the disk. -/
inductive DiskNode where
  | file (text : String)
  | directory
  deriving DecidableEq, Repr

/-- The place of a node: the names from the root of the disk. -/
abbrev Place := List String

/-- The files and directories, and the place from which relative paths start. The root is a
directory without being listed. -/
structure Disk where
  /-- The nodes below the root, each place once. -/
  nodes : List (Place × DiskNode)
  /-- The working directory. -/
  workingPlace : Place
  deriving Repr

namespace Disk

/-- The disk that holds nothing but its working directory. -/
def blank (workingPlace : Place) : Disk :=
  ⟨(List.range workingPlace.length).map fun n => (workingPlace.take (n + 1), .directory),
    workingPlace⟩

/-- What stands at a place. -/
def node? (d : Disk) (p : Place) : Option DiskNode :=
  if p = [] then some .directory else d.nodes.lookup p

/-- The disk with a node put at a place. -/
def put (d : Disk) (p : Place) (n : DiskNode) : Disk :=
  { d with nodes := d.nodes.filter (·.1 != p) ++ [(p, n)] }

/-- The disk without the node at a place. -/
def drop (d : Disk) (p : Place) : Disk :=
  { d with nodes := d.nodes.filter (·.1 != p) }

/-- The length of the longest name, in bytes. -/
def nameLimit : Nat := 255

/-- The length from which on a path is too long, in bytes. -/
def pathLimit : Nat := 4096

/-- Whether a path can be looked up at all. -/
def checkPath (path : String) : Except DiskFault Unit :=
  if path.toList.contains (Char.ofNat 0) then .error .unusableName
  else if path = "" then .error .notFound
  else if pathLimit ≤ path.utf8ByteSize then .error .nameTooLong
  else .ok ()

/-- The directory from which a path starts and the names that it goes through. -/
def route (d : Disk) (path : String) : Place × List String :=
  (if Path.isAbsolute path then [] else d.workingPlace,
    (Text.split '/' path).filter fun name => name != "" && name != ".")

/-- Goes through names from a place; all places on the way have to be directories, and only the last
one may be missing. -/
def walk (d : Disk) (here : Place) : List String → Except DiskFault Place
  | [] => .ok here
  | name :: names =>
    match d.node? here with
    | none => .error .notFound
    | some (.file _) => .error .notDirectory
    | some .directory =>
      if name = ".." then walk d here.dropLast names
      else if nameLimit < name.utf8ByteSize then .error .nameTooLong
      else walk d (here ++ [name]) names

/-- Whether the last thing in a path asks for a directory. -/
def asksDirectory (path : String) : Bool :=
  Path.endsInSlash path || ['/', '.'].isSuffixOf path.toList

/-- The place of a path, of which the last name may be missing. -/
def locate (d : Disk) (path : String) : Except DiskFault Place := do
  checkPath path
  let (start, names) := d.route path
  let place ← d.walk start names
  match d.node? place with
  | some (.file _) => if asksDirectory path then .error .notDirectory else .ok place
  | _ => .ok place

/-- The text of a file. -/
def fileText (d : Disk) (path : String) : Except DiskFault String := do
  match d.node? (← d.locate path) with
  | some (.file text) => .ok text
  | some .directory => .error .isDirectory
  | none => .error .notFound

/-- Creates or overwrites a file. -/
def writeFile (d : Disk) (path text : String) : Except DiskFault Disk := do
  let place ← d.locate path
  match d.node? place with
  | some .directory => .error .isDirectory
  | some (.file _) => .ok (d.put place (.file text))
  | none => if asksDirectory path then .error .isDirectory else .ok (d.put place (.file text))

/-- Removes a file. -/
def removeFile (d : Disk) (path : String) : Except DiskFault Disk := do
  let place ← d.locate path
  match d.node? place with
  | some (.file _) => .ok (d.drop place)
  | some .directory => .error .isDirectory
  | none => .error .notFound

/-- Whether a path leads to anything. -/
def hasNode (d : Disk) (path : String) : Bool :=
  match d.locate path with
  | .ok place => (d.node? place).isSome
  | .error _ => false

/-- Whether a path leads to a file. -/
def hasFile (d : Disk) (path : String) : Bool :=
  match d.fileText path with
  | .ok _ => true
  | .error _ => false

/-- Goes through names from a place and creates the directories that are missing. -/
def createWay (d : Disk) (here : Place) : List String → Except DiskFault Disk
  | [] => .ok d
  | name :: names =>
    if name = ".." then createWay d here.dropLast names
    else if nameLimit < name.utf8ByteSize then .error .nameTooLong
    else
      let place := here ++ [name]
      match d.node? place with
      | some .directory => createWay d place names
      | some (.file _) => .error (if names = [] then .occupied else .notDirectory)
      | none => createWay (d.put place .directory) place names

/-- Creates a directory and those on the way to it; the empty path asks for nothing. -/
def createDirectories (d : Disk) (path : String) : Except DiskFault Disk :=
  if path = "" then .ok d
  else do
    checkPath path
    let (start, names) := d.route path
    d.createWay start names

/-- The disk with a file at a path, whose directories are created. If something stands in the way
the disk stays as it is. -/
def install (d : Disk) (path text : String) : Disk :=
  let directory := String.ofList ((path.toList.reverse.dropWhile (· != '/')).reverse)
  match d.createDirectories directory with
  | .error _ => d
  | .ok made =>
    match made.writeFile path text with
    | .ok written => written
    | .error _ => d

/-- The files that differ on a later disk: those that were created or changed with their texts, and
those that are gone without. -/
def changes (d later : Disk) : List (Place × Option String) :=
  (later.nodes.filterMap fun (place, node) =>
    match node with
    | .file text => if d.node? place = some node then none else some (place, some text)
    | .directory => none) ++
  d.nodes.filterMap fun (place, node) =>
    match node with
    | .file _ => if (later.node? place).isSome then none else some (place, none)
    | .directory => none

/-- The names in a directory. -/
def listDirectory (d : Disk) (path : String) : Except DiskFault (List String) := do
  let place ← d.locate path
  match d.node? place with
  | some .directory =>
    .ok (d.nodes.filterMap fun n => if n.1.dropLast = place then n.1.getLast? else none)
  | some (.file _) => .error .notDirectory
  | none => .error .notFound

end Disk

end ConfigUpdate
