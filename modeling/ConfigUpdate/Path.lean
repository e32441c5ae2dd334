import ConfigUpdate.Text.Split

/-!
# Paths of files

Paths as texts: a file in a directory, and the path of a file with a number put into its name. The
names of a path stand between slashes; an empty name or a `.` in it means nothing.
-/

namespace ConfigUpdate.Path

/-- Whether a path starts at the root of the disk. -/
def isAbsolute (path : String) : Bool :=
  path.toList.head? == some '/'

/-- Whether a path ends in a slash. -/
def endsInSlash (path : String) : Bool :=
  path.toList.getLast? == some '/'

/-- The path of a name in a directory. -/
def inside (directory name : String) : String :=
  if directory = "" then name
  else if endsInSlash directory then directory ++ name
  else directory ++ "/" ++ name

/-- Whether a name of a path means nothing. -/
def isVoid (name : String) : Bool :=
  name == "" || name == "."

/-- The directory of a path and the name in it; `none` if the path does not end in a name. -/
def split? (path : String) : Option (String × String) :=
  match (Text.split '/' path).reverse.dropWhile isVoid with
  | [] => none
  | name :: above =>
    if name = ".." then none
    else
      match above.dropWhile isVoid with
      | [] =>
        let root :=
          if isAbsolute path then "/" else if ['.', '/'].isPrefixOf path.toList then "." else ""
        some (root, name)
      | names => some (Text.join '/' names.reverse, name)

/-- The name of a file split at its last dot: the part before and the one after, which is missing if
there is no dot or only one in front. -/
def splitEnding (name : String) : String × Option String :=
  let reversed := name.toList.reverse
  match reversed.span (· != '.') with
  | (_, []) => (name, none)
  | (_, [_]) => (name, none)
  | (ending, _ :: front) =>
    (String.ofList front.reverse, some (String.ofList ending.reverse))

/-- The path with a number at the end of the name of the file, before its last dot. -/
def numbered (path : String) (n : Nat) : String :=
  match split? path with
  | none => inside path (toString n)
  | some (directory, name) =>
    let (front, ending) := splitEnding name
    inside directory (front ++ toString n ++ (ending.map ("." ++ ·)).getD "")

end ConfigUpdate.Path
