import ConfigUpdate.Pointer.Basic
import ConfigUpdate.Value.Basic

/-!
# Nodes of a tree

Looking up, inserting, removing and replacing the node at a pointer. A step looks up a member of an
object by its name, also if it is a position, and an item of an array only by a position; nothing
is ever created on the way.
-/

namespace ConfigUpdate

/-- The bound of the positions that a text can spell. -/
def Step.positionBound : Nat := UInt64.size

/-- The position for which a step stands in an array of `length` items at `location`. With `atEnd`
the position after the last item is one too, and `-` stands for it. -/
def Step.position (step : Step) (length : Nat) (atEnd : Bool) (location : String) :
    Except ResolveError Nat := do
  let limit := if atEnd then length + 1 else length
  let inRange (i : Nat) : Except ResolveError Nat :=
    if i < limit then .ok i else .error (.indexOutOfRange location i length)
  match step with
  | .index i => inRange i
  | .key k =>
    if atEnd && k == "-" then .ok length
    else match Text.index? positionBound k with
      | some i => inRange i
      | none => .error (.invalidIndex location k)

namespace Value

/-- The child of a node at `location`. -/
def child (v : Value) (step : Step) (location : String) : Except ResolveError Value :=
  match v with
  | object ms =>
    match Dictionary.get? ms step.name with
    | some c => .ok c
    | none => .error (.keyNotFound location step.name)
  | array xs => do
    let i ← step.position xs.length false location
    match xs[i]? with
    | some c => .ok c
    | none => .error (.indexOutOfRange location i xs.length)
  | scalar _ => .error (.notAContainer location step.name v.kind)

/-- The node with its child at a step replaced; a child that is not there is not added. -/
def setChild (v : Value) (step : Step) (c : Value) : Value :=
  match v with
  | object ms => object (Dictionary.insert ms step.name c)
  | array xs =>
    match step.position xs.length false "" with
    | .ok i => array (xs.set i c)
    | .error _ => v
  | scalar _ => v

/-- The node at a pointer below a node at `location`. -/
def resolveFrom (location : String) (v : Value) : Pointer → Except ResolveError Value
  | [] => .ok v
  | s :: p => do resolveFrom (s.textBelow location) (← v.child s location) p

/-- The node at a pointer. -/
def resolve (v : Value) (p : Pointer) : Except ResolveError Value :=
  resolveFrom "" v p

/-- Whether there is a node at a pointer. -/
def hasNode (v : Value) (p : Pointer) : Bool :=
  match v.resolve p with
  | .ok _ => true
  | .error _ => false

/-- Changes the node at a pointer below a node at `location`; `f` is given the node and its location
and answers with the new node and a result. -/
def alterFrom {α : Type} (location : String) (f : String → Value → Except ResolveError (Value × α))
    (v : Value) : Pointer → Except ResolveError (Value × α)
  | [] => f location v
  | s :: p => do
    let (c, a) ← alterFrom (s.textBelow location) f (← v.child s location) p
    return (v.setChild s c, a)

/-- Adds a child to a node at `location`: a member is overwritten, an item moves those behind it. -/
def insertChild (step : Step) (new : Value) (location : String) (v : Value) :
    Except ResolveError (Value × Unit) :=
  match v with
  | object ms => .ok (object (Dictionary.insert ms step.name new), ())
  | array xs => do
    let i ← step.position xs.length true location
    return (array (xs.insertIdx i new), ())
  | scalar _ => .error (.notAContainer location step.name v.kind)

/-- Takes a child away from a node at `location`. -/
def removeChild (step : Step) (location : String) (v : Value) :
    Except ResolveError (Value × Value) :=
  match v with
  | object ms =>
    match Dictionary.get? ms step.name with
    | some c => .ok (object (Dictionary.erase ms step.name), c)
    | none => .error (.keyNotFound location step.name)
  | array xs => do
    let i ← step.position xs.length false location
    match xs[i]? with
    | some c => .ok (array (xs.eraseIdx i), c)
    | none => .error (.indexOutOfRange location i xs.length)
  | scalar _ => .error (.notAContainer location step.name v.kind)

/-- The tree with a value inserted at a pointer; at the root it replaces the tree. -/
def insertAt (v : Value) (p : Pointer) (new : Value) : Except ResolveError Value := do
  match p.getLast? with
  | none => return new
  | some last => return (← alterFrom "" (insertChild last new) v p.dropLast).1

/-- The tree without the node at a pointer, and that node. Without its root a tree is empty. -/
def removeAt (v : Value) (p : Pointer) : Except ResolveError (Value × Value) :=
  match p.getLast? with
  | none => .ok (empty, v)
  | some last => alterFrom "" (removeChild last) v p.dropLast

/-- The tree with another value for the node at a pointer, and the node before. -/
def replaceAt (v : Value) (p : Pointer) (new : Value) : Except ResolveError (Value × Value) :=
  alterFrom "" (fun _ old => .ok (new, old)) v p

end Value

end ConfigUpdate
