import ConfigUpdate.Dictionary
import ConfigUpdate.Patch.Operation
import ConfigUpdate.Text.Lowercase

/-!
# Rules about fields

The rules say which fields of a table may be changed, how, and from which build on, for each family
of chips. The family follows from the type of the chips and the model of the switch.
-/

namespace ConfigUpdate

/-- Whether the second list of characters stands anywhere in the first one. -/
def Text.containsChars (cs part : List Char) : Bool :=
  part.isPrefixOf cs || match cs with
    | [] => false
    | _ :: cs => containsChars cs part

/-- The models of each family of chips. -/
structure ChipFamilies where
  /-- The models of the families that are recognised by the whole name of a model. -/
  exact : Dictionary String (List String)
  /-- The models of the families that are recognised by a part of the name. -/
  partly : Dictionary String (List String)
  deriving DecidableEq, Repr

namespace ChipFamilies

/-- The first family with a model that passes a test in lower case. -/
def findFamily (families : Dictionary String (List String)) (test : String → Bool) :
    Option String :=
  (families.find? fun f => f.2.any fun model => test (Text.toLower model)).map (·.1)

/-- The family of a switch by the type of its chips and its model, of which the case does not
matter. -/
def resolve? (cf : ChipFamilies) (chipType model : String) : Option String :=
  let model := Text.toLower model
  let exactly := findFamily cf.exact (· == model)
  let partly := findFamily cf.partly fun m => Text.containsChars model.toList m.toList
  match chipType with
  | "mellanox" => exactly
  | "broadcom" => partly
  | "vs" => exactly <|> partly
  | "cisco-8000" | "marvell-teralynx" => some chipType
  | _ => none

/-- The word for a family that is not known. -/
def unknown : String := "unknown"

/-- The name of the family of a switch. -/
def resolve (cf : ChipFamilies) (chipType model : String) : String :=
  (cf.resolve? chipType model).getD unknown

end ChipFamilies

/-- One rule. -/
structure Rule where
  /-- The table whose fields it is about. -/
  table : String
  /-- The check that asks it. -/
  validator : String
  /-- Its name. -/
  name : String
  /-- The fields that it covers. -/
  fields : List String
  /-- The verbs that it allows. -/
  verbs : List Verb
  /-- The least build for each family of chips. -/
  platforms : Dictionary String Nat
  deriving DecidableEq, Repr

/-- The rules and the families of chips. -/
structure RuleBook where
  /-- The families of chips. -/
  families : ChipFamilies
  /-- The rules, by table, check and name. -/
  rules : List Rule
  deriving DecidableEq, Repr

/-- The first rule of a check about a field of a table. -/
def RuleBook.find? (book : RuleBook) (table validator field : String) : Option Rule :=
  book.rules.find? fun r => r.table == table && r.validator == validator && r.fields.contains field

end ConfigUpdate
