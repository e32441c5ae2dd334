import ConfigUpdate.Text.Digits
import ConfigUpdate.Text.Split

/-!
# Pointers

The location of a node in a configuration tree: the steps down from the root. Its written form is a
JSON pointer such as `/PORT/Ethernet0/speed`, in which `~` is written as `~0` and `/` as `~1`.
-/

namespace ConfigUpdate

/-- Why a pointer does not lead to a node. Locations are given in their written form. -/
inductive ResolveError where
  /-- An object has no such member. -/
  | keyNotFound (location : String) (key : String)
  /-- An array has too few items. -/
  | indexOutOfRange (location : String) (index : Nat) (length : Nat)
  /-- A name that is no index meets an array. -/
  | invalidIndex (location : String) (step : String)
  /-- The way leads on below a leaf. -/
  | notAContainer (location : String) (step : String) (kind : String)
  /-- The text of the pointer is malformed. -/
  | invalidPointer (pointer : String) (reason : String)
  deriving DecidableEq, Repr

namespace ResolveError

/-- The message of the error. -/
def message : ResolveError → String
  | keyNotFound location key => "key '" ++ key ++ "' not found at '" ++ location ++ "'"
  | indexOutOfRange location index length =>
    "index " ++ toString index ++ " out of range at '" ++ location ++ "' (length "
      ++ toString length ++ ")"
  | invalidIndex location step =>
    "'" ++ step ++ "' is not a valid array index at '" ++ location ++ "'"
  | notAContainer location step kind =>
    "cannot resolve '" ++ step ++ "' under " ++ kind ++ " value at '" ++ location ++ "'"
  | invalidPointer pointer reason => "invalid JSON pointer '" ++ pointer ++ "': " ++ reason

end ResolveError

/-- One step down a tree. -/
inductive Step where
  /-- To the member of an object by its name. -/
  | key (name : String)
  /-- To an item by its position. -/
  | index (position : Nat)
  deriving DecidableEq, Repr, Inhabited

namespace Step

/-- The step as the name of a member. -/
def name : Step → String
  | key k => k
  | index i => toString i

/-- The written form of a character of a name. -/
def escapeChar (c : Char) : List Char :=
  if c = '~' then ['~', '0'] else if c = '/' then ['~', '1'] else [c]

/-- The written form of a name. -/
def escape (name : String) : String :=
  String.ofList (name.toList.flatMap escapeChar)

/-- The name that a written form stands for; `none` if a tilde is not followed by `0` or `1`. -/
def unescape? : List Char → Option (List Char)
  | [] => some []
  | '~' :: '0' :: cs => (unescape? cs).map ('~' :: ·)
  | '~' :: '1' :: cs => (unescape? cs).map ('/' :: ·)
  | c :: cs => if c = '~' then none else (unescape? cs).map (c :: ·)

/-- The written form of the step. -/
def text : Step → String
  | key k => escape k
  | index i => toString i

/-- The written form of the location to which the step leads from a location. -/
def textBelow (step : Step) (location : String) : String :=
  location ++ "/" ++ step.text

/-- The order of steps: names before positions. -/
def cmp : Step → Step → Ordering
  | key a, key b => if a = b then .eq else if a < b then .lt else .gt
  | key _, index _ => .lt
  | index _, key _ => .gt
  | index i, index j => compare i j

end Step

/-- A location in a tree: the steps from the root. -/
abbrev Pointer := List Step

namespace Pointer

/-- The pointer of a list of names. -/
def ofNames (names : List String) : Pointer :=
  names.map .key

/-- The written form. -/
def text (p : Pointer) : String :=
  p.foldl (fun location step => step.textBelow location) ""

/-- The steps of written names, all or none. -/
def stepsOf? : List (List Char) → Option Pointer
  | [] => some []
  | raw :: raws => do
    let name ← Step.unescape? raw
    let steps ← stepsOf? raws
    return .key (String.ofList name) :: steps

/-- Reads a written form. -/
def parse (text : String) : Except ResolveError Pointer :=
  match text.toList with
  | [] => .ok []
  | '/' :: cs =>
    match stepsOf? (Text.splitChars '/' cs) with
    | some p => .ok p
    | none => .error (.invalidPointer text "'~' must be followed by '0' or '1'")
  | _ => .error (.invalidPointer text "pointer must be empty or start with '/'")

/-- The pointer to the container of the node; the root has none. -/
def parent? (p : Pointer) : Option Pointer :=
  if p.isEmpty then none else some p.dropLast

/-- The name at a depth. -/
def segment? (p : Pointer) (depth : Nat) : Option String :=
  p[depth]?.map Step.name

/-- The name of the table. -/
def table? (p : Pointer) : Option String :=
  p.segment? 0

/-- The key of the entry. -/
def entryKey? (p : Pointer) : Option String :=
  p.segment? 1

/-- Whether the node is the other one or lies below it. -/
def startsWith (p other : Pointer) : Bool :=
  (other.map Step.name).isPrefixOf (p.map Step.name)

/-- Whether the node lies below the other one. -/
def isBelow (p other : Pointer) : Bool :=
  other.length < p.length && p.startsWith other

/-- The order of pointers, step by step. -/
def cmp : Pointer → Pointer → Ordering
  | [], [] => .eq
  | [], _ :: _ => .lt
  | _ :: _, [] => .gt
  | s :: p, t :: q => match s.cmp t with
    | .eq => cmp p q
    | o => o

end Pointer

/-- How much of a configuration a pointer addresses. -/
inductive Granularity where
  /-- The whole configuration. -/
  | root
  /-- One table. -/
  | table
  /-- One entry. -/
  | entry
  /-- One field, or a part of one. -/
  | field
  deriving DecidableEq, Repr

/-- How much of a configuration the pointer addresses. -/
def Pointer.granularity (p : Pointer) : Granularity :=
  match p.length with
  | 0 => .root
  | 1 => .table
  | 2 => .entry
  | _ => .field

end ConfigUpdate
