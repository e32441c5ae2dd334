import ConfigUpdate.Gate.Edit
import ConfigUpdate.Platform.Basic
import ConfigUpdate.Rules.Basic

/-!
# Fields that need a rule

The fields of the watchdog and of the buffers may be changed only where a rule permits it for the
family of the chips and the build that runs.
-/

namespace ConfigUpdate.TrafficCheck

/-- The name of the check. -/
def name : String := "rdma_config_update_validator"

/-- The name of the check of buffer profiles. -/
def profileName : String := "buffer_profile_config_update_validator"

/-- The name by which the rules know a field. -/
def ruleField (table key field : String) : String :=
  match table with
  | "BUFFER_POOL" => key ++ "/" ++ field
  | "PFC_WD" => if key = "GLOBAL" then "global/" ++ Text.toLower field else field
  | _ => field

/-- Why no build of a family may make a change that a rule is about. -/
def ruleFault? (rule : Option Rule) (verb : Verb) (family : String) (build : Nat) : Option String :=
  match rule with
  | none => some "no rule permits modifying this field"
  | some r =>
    if r.verbs.isEmpty then some ("rule '" ++ r.name ++ "' allows no operations")
    else if !r.verbs.contains verb then
      some ("rule '" ++ r.name ++ "' does not allow '" ++ verb.word ++ "'")
    else if verb = .remove then none
    else
      match Dictionary.get? r.platforms family with
      | none => some ("rule '" ++ r.name ++ "' does not support ASIC family " ++ family)
      | some least =>
        if build < least then
          some ("rule '" ++ r.name ++ "' requires build " ++ toString least ++ " or later on "
            ++ family ++ ", running " ++ toString build)
        else none

/-- Checks a field that an edit touches. -/
def checkField (book : RuleBook) (family : String) (build : Nat) (e : Edit) (t : FieldTouch) :
    Except UpdateError Unit :=
  let field := ruleField e.table t.key t.field
  match ruleFault? (book.find? e.table name field) e.verb family build with
  | none => .ok ()
  | some fault => .error (e.refuse name field fault)

/-- Checks an edit against the rules. Whole entries and tables may always be removed. -/
def check (platform : Platform) (book : RuleBook) (e : Edit) : Except UpdateError Unit :=
  if e.verb = .remove ∧ e.path.granularity ≠ .field then .ok ()
  else
    let family := book.families.resolve platform.chipType platform.model
    if family = ChipFamilies.unknown then
      .error (e.refuse name e.placeInTable ("ASIC family of hwsku '" ++ platform.model ++ "' ("
        ++ platform.chipType ++ ") is unknown"))
    else
      match platform.buildNumber? with
      | none =>
        .error (e.refuse name e.placeInTable
          ("no build number in version '" ++ platform.version ++ "'"))
      | some build => e.fields.forM (checkField book family build e)

/-- Checks an edit of the buffer profiles. Whole profiles come and go freely. -/
def checkProfile (platform : Platform) (book : RuleBook) (e : Edit) : Except UpdateError Unit :=
  if e.path.granularity = .field then check platform book e
  else
    match e.verb with
    | .add | .remove | .replace => .ok ()
    | verb =>
      .error (e.refuse profileName e.entryKey
        ("'" ++ verb.word ++ "' of a whole buffer profile is not supported"))

end ConfigUpdate.TrafficCheck
