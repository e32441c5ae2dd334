import ConfigUpdate.Patch.Operation

/-!
# Moves

A plan consists of moves. A move only adds, removes or replaces, and it knows what has to be found
at its path, so a store that another writer has changed is noticed before it is written.
-/

namespace ConfigUpdate

/-- What a move does. -/
inductive MoveKind where
  | add
  | remove
  | replace
  deriving DecidableEq, Repr, Inhabited

/-- The verb of the patch operation that does the same. -/
def MoveKind.verb : MoveKind → Verb
  | add => .add
  | remove => .remove
  | replace => .replace

/-- What a move expects at its path. -/
inductive Precondition where
  /-- Nothing, in a container that is there. -/
  | absent
  /-- Exactly this value. -/
  | equals (value : Value)
  deriving Repr, Inhabited

/-- One change of a plan. -/
structure Move where
  /-- What it does. -/
  kind : MoveKind
  /-- Where it does it. -/
  path : Pointer
  /-- The value that it adds or writes. -/
  value : Option Value
  /-- What it expects to find. -/
  precondition : Precondition
  deriving Repr, Inhabited

namespace Move

/-- The move that adds a value where nothing is. -/
def add (path : Pointer) (value : Value) : Move :=
  ⟨.add, path, some value, .absent⟩

/-- The move that removes a known value. -/
def remove (path : Pointer) (prior : Value) : Move :=
  ⟨.remove, path, none, .equals prior⟩

/-- The move that replaces a known value. -/
def replace (path : Pointer) (prior value : Value) : Move :=
  ⟨.replace, path, some value, .equals prior⟩

/-- The value that the move expects. -/
def prior? (m : Move) : Option Value :=
  match m.precondition with
  | .absent => none
  | .equals v => some v

/-- Whether a path leads to nothing. -/
def checkVacant (path : Pointer) (tree : Value) : Except PreconditionError Unit :=
  if tree.hasNode path then .error (.alreadyPresent path.text) else .ok ()

/-- Whether the move finds in a tree what it expects. -/
def check (m : Move) (tree : Value) : Except PreconditionError Unit :=
  match m.precondition with
  | .absent =>
    match m.path.parent? with
    | none => checkVacant m.path tree
    | some parent =>
      match tree.resolve parent with
      | .error e => .error (.unresolvable e)
      | .ok (.scalar s) =>
        let step := (m.path.segment? parent.length).getD ""
        .error (.unresolvable (.notAContainer parent.text step (Value.scalar s).kind))
      | .ok _ => checkVacant m.path tree
  | .equals expected =>
    match tree.resolve m.path with
    | .error e => .error (.unresolvable e)
    | .ok actual =>
      if actual == expected then .ok ()
      else .error (.mismatch m.path.text (Json.compact expected) (Json.compact actual))

/-- The tree after the move, whatever it expects. -/
def run (m : Move) (tree : Value) : Except ResolveError Value :=
  match m.kind with
  | .add => tree.insertAt m.path (m.value.getD .empty)
  | .remove => return (← tree.removeAt m.path).1
  | .replace => return (← tree.replaceAt m.path (m.value.getD .empty)).1

/-- The tree after the move, if it finds what it expects. -/
def step (m : Move) (tree : Value) : Except PreconditionError Value := do
  m.check tree
  match m.run tree with
  | .ok tree => return tree
  | .error e => throw (.unresolvable e)

/-- The patch operation that does the same. -/
def toOperation (m : Move) : Operation :=
  ⟨m.kind.verb, m.path, m.value, none⟩

/-- The words for the move. -/
def text (m : Move) : String :=
  m.kind.verb.word ++ " " ++ m.path.text

/-- The tree after a list of moves, or the position of the first one that fails, with the tree that
it fails on and the reason. -/
def runAll (tree : Value) (moves : List Move) : Except (Nat × Value × PreconditionError) Value :=
  go 0 tree moves
where
  /-- The same for a list of which the first move stands at a position. -/
  go (index : Nat) (tree : Value) : List Move → Except (Nat × Value × PreconditionError) Value
    | [] => .ok tree
    | m :: ms =>
      match m.step tree with
      | .ok tree => go (index + 1) tree ms
      | .error e => .error (index, tree, e)

end Move

end ConfigUpdate
