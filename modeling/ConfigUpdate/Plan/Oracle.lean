import ConfigUpdate.Key
import ConfigUpdate.Text.Blank
import ConfigUpdate.Value.Basic

/-!
# Structural oracles

An oracle says whether a whole tree is acceptable. The one in use knows two kinds of rules: an entry
can need another entry with the first component of its key, and a field can name entries of another
table.
-/

namespace ConfigUpdate

/-- Why an oracle refuses a tree. -/
structure Rejection where
  /-- The reason, in words. -/
  reason : String
  deriving DecidableEq, Repr

/-- A judgement on whole trees. -/
abbrev Oracle := Value → Except Rejection Unit

namespace Oracle

/-- The oracle that accepts every tree. -/
def acceptAll : Oracle := fun _ => .ok ()

/-- The oracle that asks several ones, up to the first refusal. -/
def all : List Oracle → Oracle
  | [], _ => .ok ()
  | o :: os, tree => do
    o tree
    all os tree

end Oracle

/-- Entries of one table need an entry of another one. -/
structure ParentRule where
  /-- The table of the entries. -/
  table : String
  /-- The table of the needed entries. -/
  parentTable : String
  /-- Whether only entries with a compound key need one. -/
  compoundOnly : Bool
  deriving DecidableEq, Repr

/-- A field names entries of another table. -/
structure ReferenceRule where
  /-- The table with the field. -/
  table : String
  /-- The field. -/
  field : String
  /-- The table of the named entries. -/
  targetTable : String
  deriving DecidableEq, Repr

/-- The rules about the references between entries. -/
structure ReferenceRules where
  /-- The rules about parents. -/
  parents : List ParentRule
  /-- The rules about fields. -/
  references : List ReferenceRule
  deriving DecidableEq, Repr

namespace ReferenceRules

/-- The rules of a switch. -/
def switch : ReferenceRules where
  parents := [
    ⟨"LOOPBACK_INTERFACE", "LOOPBACK_INTERFACE", true⟩,
    ⟨"INTERFACE", "INTERFACE", true⟩,
    ⟨"VLAN_INTERFACE", "VLAN_INTERFACE", true⟩,
    ⟨"VLAN_INTERFACE", "VLAN", false⟩,
    ⟨"PORTCHANNEL_INTERFACE", "PORTCHANNEL_INTERFACE", true⟩,
    ⟨"PORTCHANNEL_INTERFACE", "PORTCHANNEL", false⟩,
    ⟨"VLAN_MEMBER", "VLAN", true⟩,
    ⟨"PORTCHANNEL_MEMBER", "PORTCHANNEL", true⟩]
  references := [
    ⟨"BUFFER_PG", "profile", "BUFFER_PROFILE"⟩,
    ⟨"BUFFER_QUEUE", "profile", "BUFFER_PROFILE"⟩,
    ⟨"BUFFER_PROFILE", "pool", "BUFFER_POOL"⟩,
    ⟨"BUFFER_PORT_INGRESS_PROFILE_LIST", "profile_list", "BUFFER_PROFILE"⟩,
    ⟨"BUFFER_PORT_EGRESS_PROFILE_LIST", "profile_list", "BUFFER_PROFILE"⟩,
    ⟨"QUEUE", "scheduler", "SCHEDULER"⟩,
    ⟨"QUEUE", "wred_profile", "WRED_PROFILE"⟩,
    ⟨"PORT_QOS_MAP", "dscp_to_tc_map", "DSCP_TO_TC_MAP"⟩,
    ⟨"PORT_QOS_MAP", "tc_to_queue_map", "TC_TO_QUEUE_MAP"⟩,
    ⟨"PORT_QOS_MAP", "tc_to_pg_map", "TC_TO_PRIORITY_GROUP_MAP"⟩,
    ⟨"PORT_QOS_MAP", "pfc_to_queue_map", "MAP_PFC_PRIORITY_TO_QUEUE"⟩]

/-- The entries of a table, if it is an object. -/
def entries (tree : Value) (table : String) : Dictionary String Value :=
  ((tree.get? table).bind Value.members?).getD []

/-- Whether a table has an entry. -/
def hasEntry (tree : Value) (table key : String) : Bool :=
  (entries tree table).contains key

/-- The key of a reference in the old form `[TABLE|key]`. -/
def oldReference? (part : String) : Option String :=
  match part.toList, part.toList.getLast? with
  | '[' :: cs, some ']' =>
    let inner := cs.dropLast
    let (table, rest) := inner.span (· != '|')
    match rest with
    | '|' :: key =>
      if table = [] ∨ key = [] ∨ inner.contains ']' then none else some (String.ofList key)
    | _ => none
  | _, _ => none

/-- The entry that a part of a field names. -/
def referenceOf (part : String) : String :=
  (oldReference? part).getD part

mutual

/-- The entries that the value of a field names: a list, with commas or as an array. -/
def namesIn : Value → List String
  | .array xs => namesInItems xs
  | .object _ => []
  | .scalar s => ((Text.commaItems s.fieldText).filter (· != "")).map referenceOf

/-- The entries that the items of an array name. -/
def namesInItems : List Value → List String
  | [] => []
  | x :: xs => namesIn x ++ namesInItems xs

end

/-- Checks the entries with some keys against a rule about parents. -/
def checkParents (tree : Value) (rule : ParentRule) : List String → Except Rejection Unit
  | [] => .ok ()
  | raw :: keys =>
    let key := EntryKey.ofText raw
    if (rule.compoundOnly && !key.isCompound) || hasEntry tree rule.parentTable key.base then
      checkParents tree rule keys
    else
      .error ⟨rule.table ++ "|" ++ raw ++ " requires " ++ rule.parentTable ++ "|" ++ key.base⟩

/-- Checks the names in a field of an entry against a rule about fields. -/
def checkNames (tree : Value) (rule : ReferenceRule) (key : String) :
    List String → Except Rejection Unit
  | [] => .ok ()
  | name :: names =>
    if hasEntry tree rule.targetTable name then checkNames tree rule key names
    else
      .error ⟨rule.table ++ "|" ++ key ++ " field '" ++ rule.field ++ "' references missing "
        ++ rule.targetTable ++ "|" ++ name⟩

/-- Checks entries against a rule about fields. -/
def checkReferences (tree : Value) (rule : ReferenceRule) :
    List (String × Value) → Except Rejection Unit
  | [] => .ok ()
  | (key, entry) :: es => do
    match entry.get? rule.field with
    | some value => checkNames tree rule key (namesIn value)
    | none => .ok ()
    checkReferences tree rule es

/-- The oracle of the rules: all entries that are needed or named are there. -/
def oracle (rules : ReferenceRules) : Oracle := fun tree => do
  rules.parents.forM fun rule => checkParents tree rule (entries tree rule.table).keys
  rules.references.forM fun rule => checkReferences tree rule (entries tree rule.table)

end ReferenceRules

end ConfigUpdate
