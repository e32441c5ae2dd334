import ConfigUpdate.DeviceState

/-!
# Fields that are published

Whatever stands in the trees that a device publishes, setting a field changes this field and no other one, so the
trees are a map of fields: `PublishedTrees.state_setField`. What is in the way of an entry has no fields, and so none
are lost with it. After any number of settings, a field has the text that it was given last, or the one that it had
before: `PublishedTrees.field?_setFields`.
-/

namespace ConfigUpdate

@[simp] theorem Tables.ofTree_toTree (ts : Tables) : Tables.ofTree ts.toTree = ts := rfl

/-- An entry that has been set is there, and the others are as they were. -/
theorem Tables.entryAt?_setEntry (ts : Tables) (table key table' key' : String) (value : Value) :
    Tables.entryAt? ((Write.setEntry table key value).run ts) table' key' =
      if table = table' ∧ key = key' then some value else ts.entryAt? table' key' := by
  rw [Write.run, entryAt?, Dictionary.get?_insert]
  by_cases htable : table = table'
  · subst htable
    rw [if_pos rfl, Option.bind_some, Value.get?, Dictionary.get?_insert, entryAt?_eq_get?_entries]
    simp only [true_and]
  · rw [if_neg htable, if_neg fun h => htable h.1]
    rfl

namespace Value

/-- A field is read from its entry, and a tree that is no object has no entries. -/
theorem fieldAt?_eq (tree : Value) (table key field : String) : tree.fieldAt? table key field =
    ((Tables.ofTree tree).entryAt? table key).bind fun entry => (entry.get? field).bind fieldText? := by
  cases tree with
  | scalar s => rfl
  | array xs => rfl
  | object ms =>
    simp only [fieldAt?, get?, Tables.ofTree, members?, Tables.entryAt?, Option.getD_some]
    cases Dictionary.get? ms table <;> rfl

theorem bind_field_eq (entry : Option Value) (field : String) :
    (entry.bind fun e => (e.get? field).bind fieldText?) =
      (Dictionary.get? ((entry.bind members?).getD []) field).bind fieldText? := by
  rw [← bind_get?_eq, Option.bind_assoc]

end Value

namespace PublishedTrees

variable (trees : PublishedTrees)

theorem field?_eq (scope : Scope) (table key field : String) : trees.field? scope table key field =
    ((Dictionary.get? trees scope).getD .empty).fieldAt? table key field := by
  unfold field?
  cases Dictionary.get? trees scope <;> rfl

/-- A field that has been set has the text, and the others have what they had. -/
theorem field?_setField (scope scope' : Scope) (table key field table' key' field' text : String) :
    (trees.setField scope table key field text).field? scope' table' key' field' =
      if scope = scope' ∧ table = table' ∧ key = key' ∧ field = field' then some text
      else trees.field? scope' table' key' field' := by
  rw [field?_eq, field?_eq, setField, Dictionary.get?_insert]
  by_cases hscope : scope = scope'
  · subst hscope
    generalize hts : Tables.ofTree ((Dictionary.get? trees scope).getD .empty) = ts
    rw [if_pos rfl, Option.getD_some, Value.fieldAt?_eq, Value.fieldAt?_eq, Tables.ofTree_toTree,
      Tables.entryAt?_setEntry, hts]
    by_cases hentry : table = table' ∧ key = key'
    · obtain ⟨rfl, rfl⟩ := hentry
      rw [if_pos ⟨rfl, rfl⟩, Value.bind_field_eq, Value.bind_field_eq, Option.bind_some, Value.members?,
        Option.getD_some, Dictionary.get?_insert]
      by_cases hfield : field = field'
      · rw [if_pos hfield, if_pos ⟨rfl, rfl, rfl, hfield⟩]
        rfl
      · rw [if_neg hfield, if_neg fun h => hfield h.2.2.2]
    · rw [if_neg hentry, if_neg fun h => hentry ⟨h.2.1, h.2.2.1⟩]
  · rw [if_neg hscope, if_neg fun h => hscope h.1]

/-- The trees that a device publishes are a map of fields: after a field has been set, what the device publishes is
the text for this field, and what it published before for every other one, whatever stands in the trees. -/
theorem state_setField (scope scope' : Scope) (table key field table' key' field' text : String) :
    (trees.setField scope table key field text).state scope' table' key' field' =
      if (scope, table, key, field) = (scope', table', key', field') then .ok (some text)
      else trees.state scope' table' key' field' := by
  simp only [state, field?_setField, Prod.mk.injEq]
  split <;> rfl

/-- An entry takes the place of a text, and the entry beside it stays. -/
example : (setField [(.host, .object [("PORT_TABLE", .object [("Ethernet0", .ofString "up"),
      ("Ethernet4", .object [("mtu", .ofString "9100")])])])] .host "PORT_TABLE" "Ethernet0" "mtu" "1500").state
    .host "PORT_TABLE" "Ethernet4" "mtu" = .ok (some "9100") := rfl

/-! ## Many settings -/

/-- The setting of a field to a text. -/
structure Setting where
  scope : Scope
  table : String
  key : String
  field : String
  text : String

/-- The trees after a list of settings. -/
def setFields (trees : PublishedTrees) (settings : List Setting) : PublishedTrees :=
  settings.foldl (fun trees s => trees.setField s.scope s.table s.key s.field s.text) trees

/-- Whether a setting sets a field. -/
def Setting.sets (scope : Scope) (table key field : String) (s : Setting) : Bool :=
  s.scope = scope ∧ s.table = table ∧ s.key = key ∧ s.field = field

/-- The last setting of a field counts, and a field that is never set stays as it was. -/
theorem field?_setFields (settings : List Setting) (scope : Scope) (table key field : String) :
    (trees.setFields settings).field? scope table key field =
      ((settings.reverse.find? (Setting.sets scope table key field)).map (·.text)).or
        (trees.field? scope table key field) := by
  induction settings generalizing trees with
  | nil => rfl
  | cons s settings ih =>
    have hrest := ih (trees.setField s.scope s.table s.key s.field s.text)
    rw [setFields, List.foldl_cons, ← setFields, hrest, field?_setField, List.reverse_cons, List.find?_append]
    cases settings.reverse.find? (Setting.sets scope table key field) with
    | some last => rfl
    | none =>
      by_cases hs : s.scope = scope ∧ s.table = table ∧ s.key = key ∧ s.field = field
      · simp [Setting.sets, hs]
      · simp [Setting.sets, hs]

end PublishedTrees

end ConfigUpdate
