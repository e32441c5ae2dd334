import ConfigUpdate.Patch.Operation
import ConfigUpdate.Scope.Basic

/-!
# Splitting by scope

On a switch with several chips the first step of every path names a scope, and a configuration is an
object of configurations by scope. Both are split into the parts of the scopes here, and joined
again.
-/

namespace ConfigUpdate

/-- The scope that a text names, or the failure of the update. -/
def Scope.parse (s : String) : Except UpdateError Scope :=
  match Scope.ofName? s with
  | some scope => .ok scope
  | none => .error (.invalidPatch ("unknown scope '" ++ s ++ "'"))

/-- The scope at the front of a path, and the path inside it. -/
def Scope.ofPath : Pointer → Except UpdateError (Scope × Pointer)
  | [] =>
    .error (.invalidPatch
      "multi-ASIC patch paths must start with a scope such as /localhost or /asic0")
  | s :: p => do return (← Scope.parse s.name, p)

/-- The scope of an operation, and the operation inside it. -/
def Operation.inScope (op : Operation) : Except UpdateError (Scope × Operation) := do
  let (scope, path) ← Scope.ofPath op.path
  match op.source with
  | none => return (scope, { op with path })
  | some source =>
    let (origin, source) ← Scope.ofPath source
    if origin = scope then return (scope, { op with path, source := some source })
    else
      throw (.invalidPatch ("'" ++ op.verb.word ++ "' from " ++ origin.name ++ " to " ++ scope.name
        ++ " crosses scopes"))

/-- The operation with its paths in a scope. -/
def Operation.prefixed (scope : Scope) (op : Operation) : Operation :=
  { op with
    path := .key scope.name :: op.path
    source := op.source.map (.key scope.name :: ·) }

namespace Scope

/-- The groups with an operation added at the end of its group. -/
def addTo (groups : Dictionary Scope (List Operation)) (scope : Scope) (op : Operation) :
    Dictionary Scope (List Operation) :=
  groups.insert scope ((groups.get? scope).getD [] ++ [op])

/-- The operations of a patch by their scopes, put behind those of the groups. -/
def groupInto (groups : Dictionary Scope (List Operation)) :
    List Operation → Except UpdateError (Dictionary Scope (List Operation))
  | [] => .ok groups
  | op :: ops => do
    let (scope, op) ← op.inScope
    groupInto (addTo groups scope op) ops

/-- The operations of a patch by their scopes; without several chips all belong to the host. -/
def splitOperations (multiAsic : Bool) (ops : List Operation) :
    Except UpdateError (Dictionary Scope (List Operation)) :=
  if multiAsic then groupInto [] ops
  else .ok (if ops.isEmpty then [] else [(host, ops)])

/-- The configurations of members by their scopes, put beside those of the parts. -/
def splitInto (parts : Dictionary Scope Value) :
    List (String × Value) → Except UpdateError (Dictionary Scope Value)
  | [] => .ok parts
  | (name, config) :: ms => do
    splitInto (parts.insert (← Scope.parse name) config) ms

/-- The configurations of a switch by their scopes; without several chips there is only the host. -/
def splitConfig (multiAsic : Bool) (tree : Value) :
    Except UpdateError (Dictionary Scope Value) :=
  if multiAsic then
    match tree with
    | .object ms => splitInto [] ms
    | _ => .error (.invalidPatch "multi-ASIC configuration must be an object keyed by scope")
  else .ok [(host, tree)]

/-- The configuration of a switch of which one scope has a configuration. -/
def wrapConfig (scope : Scope) (config : Value) : Value :=
  .object [(scope.name, config)]

end Scope

end ConfigUpdate
