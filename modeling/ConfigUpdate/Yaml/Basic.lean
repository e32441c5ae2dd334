/-!
# YAML values

What a YAML document holds, as far as the facts about a switch need it: every scalar is a text.
-/

namespace ConfigUpdate

/-- The value of a YAML document. -/
inductive Yaml where
  | text (value : String)
  | list (items : List Yaml)
  /-- The members in the order in which they are written. -/
  | mapping (members : List (String × Yaml))
  deriving Repr, Inhabited

end ConfigUpdate
