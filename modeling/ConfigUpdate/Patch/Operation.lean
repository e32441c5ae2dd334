import ConfigUpdate.Json.Printer
import ConfigUpdate.Pointer.Tree
import ConfigUpdate.Update.Error

/-!
# Patch operations

A patch is a list of operations, carried out one after another. This is the literal meaning of a
patch: what it makes of a tree, before anything is said about the order of the changes in a store.
-/

namespace ConfigUpdate

/-- What a patch operation does. -/
inductive Verb where
  | add
  | remove
  | replace
  | move
  | copy
  | test
  deriving DecidableEq, Repr, Inhabited

/-- The word for a verb. -/
def Verb.word : Verb → String
  | add => "add"
  | remove => "remove"
  | replace => "replace"
  | move => "move"
  | copy => "copy"
  | test => "test"

/-- The verb of a word. -/
def Verb.ofWord? : String → Option Verb
  | "add" => some .add
  | "remove" => some .remove
  | "replace" => some .replace
  | "move" => some .move
  | "copy" => some .copy
  | "test" => some .test
  | _ => none

/-- One operation of a patch. -/
structure Operation where
  /-- What it does. -/
  verb : Verb
  /-- Where it does it. -/
  path : Pointer
  /-- The value that it adds, writes or expects. -/
  value : Option Value
  /-- Where it takes the value from. -/
  source : Option Pointer
  deriving Repr, Inhabited

namespace Operation

/-- The operation as the members of an object, in the order in which they are written. -/
def toValue (op : Operation) : Value :=
  .object <|
    [("op", .ofString op.verb.word), ("path", .ofString op.path.text)]
      ++ op.value.toList.map (fun v => ("value", v))
      ++ op.source.toList.map (fun p => ("from", .ofString p.text))

/-- Why an operation cannot be carried out. -/
inductive Fault where
  /-- A path leads nowhere. -/
  | unresolvable (cause : ResolveError)
  /-- The operation needs a value and has none. -/
  | noValue (verb : Verb)
  /-- The operation needs a source and has none. -/
  | noSource (verb : Verb)
  /-- A node would be moved below itself. -/
  | intoItself (source : Pointer)
  /-- The node differs from the one that a test expects. -/
  | testFailed (found expected : Value)

/-- The failure of the update when the operation at a position of the patch fails. -/
def Fault.toError (index : Nat) (path : Pointer) : Fault → UpdateError
  | unresolvable cause => .pathResolution (some index) path.text (.unresolvable cause)
  | noValue verb => invalid ("'" ++ verb.word ++ "' requires a value")
  | noSource verb => invalid ("'" ++ verb.word ++ "' requires 'from'")
  | intoItself source => invalid ("cannot move '" ++ source.text ++ "' into its own child")
  | testFailed found expected =>
    invalid ("test failed: found " ++ Json.compact found ++ ", expected " ++ Json.compact expected)
where
  /-- The failure with a reason for this operation. -/
  invalid (reason : String) : UpdateError :=
    .invalidPatch ("operation " ++ toString index ++ " at '" ++ path.text ++ "': " ++ reason)

/-- The result of an edit of the tree, as the result of an operation. -/
def edited {α : Type} : Except ResolveError α → Except Fault α
  | .ok a => .ok a
  | .error e => .error (.unresolvable e)

/-- The value of the operation, which has to have one. -/
def needValue (op : Operation) : Except Fault Value :=
  match op.value with
  | some v => .ok v
  | none => .error (.noValue op.verb)

/-- The source of the operation, which has to have one. -/
def needSource (op : Operation) : Except Fault Pointer :=
  match op.source with
  | some p => .ok p
  | none => .error (.noSource op.verb)

/-- The tree after the operation. -/
def run (op : Operation) (tree : Value) : Except Fault Value := do
  match op.verb with
  | .add => edited (tree.insertAt op.path (← op.needValue))
  | .remove => return (← edited (tree.removeAt op.path)).1
  | .replace => return (← edited (tree.replaceAt op.path (← op.needValue))).1
  | .move =>
    let source ← op.needSource
    if op.path.isBelow source then throw (.intoItself source)
    let (tree, moved) ← edited (tree.removeAt source)
    edited (tree.insertAt op.path moved)
  | .copy =>
    let copied ← edited (tree.resolve (← op.needSource))
    edited (tree.insertAt op.path copied)
  | .test =>
    let expected ← op.needValue
    let found ← edited (tree.resolve op.path)
    if found == expected then return tree else throw (.testFailed found expected)

/-- The tree after the operations of a patch, of which the first stands at `index`. -/
def runFrom (index : Nat) (tree : Value) : List Operation → Except UpdateError Value
  | [] => .ok tree
  | op :: ops =>
    match op.run tree with
    | .ok tree => runFrom (index + 1) tree ops
    | .error fault => .error (fault.toError index op.path)

/-- The tree after the operations of a patch. -/
def runAll (tree : Value) (ops : List Operation) : Except UpdateError Value :=
  runFrom 0 tree ops

end Operation

end ConfigUpdate
