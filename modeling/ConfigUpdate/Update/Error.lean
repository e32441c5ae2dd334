import ConfigUpdate.Pointer.Basic
import ConfigUpdate.Store.Error

/-!
# Failures of an update

Every way in which an update can fail. Planning fails before anything is written. Only
`concurrentModification` and `applyFailed` arise while moves are written, and both say how many
moves were committed before.
-/

namespace ConfigUpdate

/-- Why the precondition of a move does not hold. -/
inductive PreconditionError where
  /-- The path of the move leads nowhere. -/
  | unresolvable (cause : ResolveError)
  /-- Something stands where the move expects nothing. -/
  | alreadyPresent (path : String)
  /-- The node differs from the one that the move expects; both are given as JSON. -/
  | mismatch (path expected actual : String)
  deriving DecidableEq, Repr

namespace PreconditionError

/-- The message of the error. -/
def message : PreconditionError → String
  | unresolvable cause => cause.message
  | alreadyPresent path => "'" ++ path ++ "' already exists"
  | mismatch path expected actual => "'" ++ path ++ "' is " ++ actual ++ ", expected " ++ expected

end PreconditionError

/-- Why settings are refused. -/
inductive SettingsError where
  /-- The settings file cannot be read. -/
  | disk (path : String) (fault : DiskFault)
  /-- The settings file is not in its format. -/
  | unreadable (path : String)
  /-- A setting has a value that it cannot have. -/
  | invalid (field message : String)
  deriving DecidableEq, Repr

namespace SettingsError

/-- The message of the error. -/
def message : SettingsError → String
  | disk path fault => "Failed to read config file " ++ path ++ ": " ++ fault.message
  | unreadable path => "Failed to parse config file " ++ path ++ ": " ++ parseFault
  | invalid field message => "Invalid value for " ++ field ++ ": " ++ message

end SettingsError

/-- Why rule metadata is refused. -/
inductive RuleError where
  /-- The rule file cannot be read. -/
  | disk (path : String) (fault : DiskFault)
  /-- The text is no rule document. -/
  | unreadable
  /-- A rule names a minimum version that is no number. -/
  | invalidVersion (table rule platform value : String)
  deriving DecidableEq, Repr

namespace RuleError

/-- The message of the error. -/
def message : RuleError → String
  | disk path fault => "Failed to read rule file " ++ path ++ ": " ++ fault.message
  | unreadable => "Failed to parse rule metadata: " ++ parseFault
  | invalidVersion table rule platform value =>
    "Invalid minimum version '" ++ value ++ "' for " ++ platform ++ " in " ++ table ++ "/" ++ rule

/-- The messages of the error and of what caused it, outermost first. -/
def trace : RuleError → List String
  | disk path fault => [(disk path fault).message, fault.message]
  | e => [e.message]

end RuleError

/-- Why an update fails. -/
inductive UpdateError where
  /-- A move or operation leads nowhere, or the precondition of a move never holds. -/
  | pathResolution (index : Option Nat) (path : String) (cause : PreconditionError)
  /-- No order of the moves keeps every tree on the way valid. -/
  | structural (reason : String) (explored : Nat)
  /-- The platform or a standing rule forbids a change. -/
  | illegalOperation (table field rule reason : String)
  /-- The store does not hold what the plan expects. -/
  | concurrentModification (index : Nat) (path : String) (committed : Nat) (reason : String)
  /-- The store refuses a write in the middle of a plan. -/
  | applyFailed (index : Nat) (path : String) (committed : Nat) (cause : StoreError)
  /-- The patch is malformed or cannot be carried out. -/
  | invalidPatch (reason : String)
  /-- The store refuses a call outside of a plan. -/
  | store (cause : StoreError)
  /-- A checkpoint is refused. -/
  | checkpoint (name reason : String)
  /-- The facts about the platform are not to be had. -/
  | platform (reason : String)
  deriving DecidableEq, Repr

namespace UpdateError

/-- The text of an optional index. -/
def indexText : Option Nat → String
  | some i => "Some(" ++ toString i ++ ")"
  | none => "None"

/-- The message of the error. -/
def message : UpdateError → String
  | pathResolution index path cause =>
    "Path resolution failed for move " ++ indexText index ++ " at '" ++ path ++ "': "
      ++ cause.message
  | structural reason explored =>
    "No valid ordering found after exploring " ++ toString explored ++ " states: " ++ reason
  | illegalOperation table field rule reason =>
    "Modification of " ++ table ++ " table field '" ++ field ++ "' is illegal (" ++ rule ++ "): "
      ++ reason
  | concurrentModification index path committed reason =>
    "Concurrent modification detected at move " ++ toString index ++ " '" ++ path ++ "' ("
      ++ toString committed ++ " committed): " ++ reason
  | applyFailed index path committed cause =>
    "Apply failed at move " ++ toString index ++ " '" ++ path ++ "' (" ++ toString committed
      ++ " committed): " ++ cause.message
  | invalidPatch reason => "Invalid patch: " ++ reason
  | store cause => "Store error: " ++ cause.message
  | checkpoint name reason => "Checkpoint '" ++ name ++ "': " ++ reason
  | platform reason => "Platform detection failed: " ++ reason

/-- The messages of the error and of what caused it, outermost first. -/
def trace (e : UpdateError) : List String :=
  e.message :: match e with
    | pathResolution _ _ cause => [cause.message]
    | applyFailed _ _ _ cause => cause.trace
    | store cause => cause.trace
    | _ => []

/-- How many moves were written before the error. -/
def committed : UpdateError → Nat
  | concurrentModification _ _ n _ | applyFailed _ _ n _ => n
  | _ => 0

/-- Whether the error promises that nothing was written. -/
def isZeroEffect (e : UpdateError) : Bool :=
  e.committed == 0

end UpdateError

end ConfigUpdate
