import ConfigUpdate.Json.Record
import ConfigUpdate.Patch.Operation

/-!
# Patch documents

The written form of a patch: an array of operations, each with the members `op`, `path`, `value` and
`from`. A `value` or `from` of `null` is as good as none.
-/

namespace ConfigUpdate.Patch

/-- The fault of a text that is no patch document. -/
def malformed : UpdateError := .invalidPatch parseFault

/-- What is known of an operation while it is read. -/
structure Draft where
  verb : Option Verb := none
  path : Option Pointer := none
  /-- The value, if the member has been read. -/
  value : Option (Option Value) := none
  /-- The source, if the member has been read. -/
  source : Option (Option Pointer) := none

/-- Reads a verb: its word, or an object with its word as the only name and `null` for it. -/
def readVerb : Json.Reader UpdateError Verb
  | .text (some word) :: ts => named word ts
  | .openBrace :: .text (some word) :: .colon :: .word .null :: .closeBrace :: ts => named word ts
  | _ => .error malformed
where
  /-- The verb of a word. -/
  named (word : String) (ts : List Json.Token) : Except UpdateError (Verb × List Json.Token) :=
    match Verb.ofWord? word with
    | some verb => .ok (verb, ts)
    | none => .error malformed

/-- Reads a pointer. A malformed pointer is told apart from other faults. -/
def readPointer : Json.Reader UpdateError Pointer
  | .text (some s) :: ts =>
    match Pointer.parse s with
    | .ok p => .ok (p, ts)
    | .error e => .error (.invalidPatch e.message)
  | _ => .error malformed

/-- Reads something that may be `null` instead. -/
def readOptional {α : Type} (read : Json.Reader UpdateError α) :
    Json.Reader UpdateError (Option α)
  | .word .null :: ts => .ok (none, ts)
  | ts => do
    let (a, ts) ← read ts
    return (some a, ts)

/-- The depth that is left for the value of an operation, inside the two containers around it. -/
def valueDepth : Nat := Json.depthLimit - 2

/-- Reads a value. -/
def readValue : Json.Reader UpdateError Value := fun ts =>
  match Json.readValue? valueDepth ts with
  | some r => .ok r
  | none => .error malformed

/-- Reads a member that is not known yet and keeps it. -/
def readOnce {α : Type} (known : Draft → Option α) (keep : Draft → α → Draft)
    (read : Json.Reader UpdateError α) (d : Draft) : Json.Reader UpdateError Draft := fun ts =>
  if (known d).isSome then .error malformed
  else do
    let (a, ts) ← read ts
    return (keep d a, ts)

/-- Reads the member `op`. -/
def readOpMember : Draft → Json.Reader UpdateError Draft :=
  readOnce (·.verb) (fun d a => { d with verb := some a }) readVerb

/-- Reads the member `path`. -/
def readPathMember : Draft → Json.Reader UpdateError Draft :=
  readOnce (·.path) (fun d a => { d with path := some a }) readPointer

/-- Reads the member `value`. -/
def readValueMember : Draft → Json.Reader UpdateError Draft :=
  readOnce (·.value) (fun d a => { d with value := some a }) (readOptional readValue)

/-- Reads the member `from`. -/
def readFromMember : Draft → Json.Reader UpdateError Draft :=
  readOnce (·.source) (fun d a => { d with source := some a }) (readOptional readPointer)

/-- The members of an operation. -/
def operationShape : Json.Shape UpdateError Draft where
  fault := malformed
  named
    | "op" => some readOpMember
    | "path" => some readPathMember
    | "value" => some readValueMember
    | "from" => some readFromMember
    | _ => none
  listed := [readOpMember, readPathMember, readValueMember, readFromMember]

/-- Reads an operation, which has to have a verb and a path. -/
def readOperation : Json.Reader UpdateError Operation := fun ts => do
  match ← operationShape.read {} ts with
  | (⟨some verb, some path, value, source⟩, ts) =>
    return (⟨verb, path, value.join, source.join⟩, ts)
  | _ => .error malformed

/-- Reads a patch document. -/
def parse (text : String) : Except UpdateError (List Operation) :=
  Json.readDocument malformed (Json.readArray malformed readOperation) text

/-- The patch document of a list of operations, on one line. -/
def render (ops : List Operation) : String :=
  Json.compact (.array (ops.map Operation.toValue))

end ConfigUpdate.Patch
