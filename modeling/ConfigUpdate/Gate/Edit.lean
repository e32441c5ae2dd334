import ConfigUpdate.Patch.Move

/-!
# Edits

What the gate sees of a move or of an operation: its verb, its path and the value that it carries.
An edit of an entry or of a table is expanded to the fields that it touches.
-/

namespace ConfigUpdate

/-- An edit of a configuration. -/
structure Edit where
  /-- What it does. -/
  verb : Verb
  /-- Where it does it. -/
  path : Pointer
  /-- The value that it carries. -/
  value : Option Value
  deriving Repr, Inhabited

/-- The edit that a move makes. -/
def Move.edit (m : Move) : Edit :=
  ⟨m.kind.verb, m.path, m.value⟩

/-- The edit that an operation makes. -/
def Operation.edit (op : Operation) : Edit :=
  ⟨op.verb, op.path, op.value⟩

/-- A field that an edit touches. -/
structure FieldTouch where
  /-- The key of the entry. -/
  key : String
  /-- The name of the field. -/
  field : String
  /-- The new value of the field, if the edit gives one. -/
  value : Option Value
  deriving Repr, Inhabited

namespace Edit

/-- The table in which the edit is. -/
def table (e : Edit) : String :=
  e.path.table?.getD ""

/-- The key of the entry in which the edit is. -/
def entryKey (e : Edit) : String :=
  e.path.entryKey?.getD ""

/-- The location inside the table, as names with slashes between them. -/
def placeInTable (e : Edit) : String :=
  Text.join '/' ((e.path.drop 1).map Step.name)

/-- The fields of an entry. -/
def entryFields (key : String) (entry : Value) : List FieldTouch :=
  (entry.members?.getD []).map fun (field, value) => ⟨key, field, some value⟩

/-- The fields that the edit touches. An edit below a field touches the field without giving its
value, and an entry or table without a value touches nothing. -/
def fields (e : Edit) : List FieldTouch :=
  match e.path.granularity with
  | .root => []
  | .table =>
    ((e.value.bind Value.members?).getD []).flatMap fun (key, entry) => entryFields key entry
  | .entry => (e.value.map (entryFields e.entryKey)).getD []
  | .field =>
    [⟨e.entryKey, (e.path.segment? 2).getD "", if e.path.length = 3 then e.value else none⟩]

/-- The refusal of the edit by a rule, because of a field. -/
def refuse (e : Edit) (rule field reason : String) : UpdateError :=
  .illegalOperation e.table field rule reason

end Edit

end ConfigUpdate
