import ConfigUpdate.CommandLine.Arguments
import ConfigUpdate.Settings.Basic

/-!
# The reach of a command

The files that a use of the program may read besides the one of its settings and the checkpoints. A
disk that holds them answers a command as the whole disk would.
-/

namespace ConfigUpdate

/-- The files that a command names. -/
def Command.files : Command → List String
  | applyPatch path | replace path | diff path => [path]
  | rollback _ | createCheckpoint _ | deleteCheckpoint _ | listCheckpoints => []

/-- The files of a scope. -/
def Settings.scopeFiles (s : Settings) (scope : Scope) : List String :=
  s.configPath scope :: (s.statePath? scope).toList

/-- The files that the settings name. -/
def Settings.files (s : Settings) : List String :=
  s.scopes.flatMap s.scopeFiles ++ s.versionPath :: s.rulesPath.toList

namespace CommandLine

/-- The files that a use of the program may read. -/
def reach (i : Invocation) (s : Settings) : List String :=
  i.command.files ++ s.files

end CommandLine

end ConfigUpdate
