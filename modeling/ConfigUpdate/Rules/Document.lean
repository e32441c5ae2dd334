import ConfigUpdate.Patch.Document
import ConfigUpdate.Rules.Basic
import ConfigUpdate.Text.Blank

/-!
# Rule documents

The written form of the rules: `helper_data` with the families of chips, and `tables` with the rules
by table, check and name. All members may be missing.
-/

namespace ConfigUpdate.RuleBook

open Json

/-- The rule of a document: its fields, verbs and least builds as texts. -/
structure RuleDraft where
  fields : Option (List String) := none
  verbs : Option (List Verb) := none
  platforms : Option (Dictionary String String) := none

/-- The families of a document. -/
structure FamiliesDraft where
  exact : Option (Dictionary String (List String)) := none
  partly : Option (Dictionary String (List String)) := none

/-- The rules of a table by check and name. -/
abbrev TableDraft := Dictionary String (Dictionary String RuleDraft)

/-- A document. -/
structure Draft where
  families : Option FamiliesDraft := none
  tables : Option (Dictionary String TableDraft) := none

/-- The fault of a text that is no rule document. -/
abbrev fault : RuleError := .unreadable

/-- Reads a member that is not known yet and keeps it. -/
def readOnce {σ α : Type} (known : σ → Option α) (keep : σ → α → σ) (read : Reader RuleError α)
    (s : σ) : Reader RuleError σ := fun ts =>
  if (known s).isSome then .error fault
  else do
    let (a, ts) ← read ts
    return (keep s a, ts)

/-- The record with one member of a name. -/
def single {α : Type} (name : String) (read : Reader RuleError α) : Shape RuleError (Option α) :=
  let member := readOnce (fun s : Option α => s) (fun _ a => some a) read
  { fault, named := fun n => if n = name then some member else none, listed := [member] }

/-- Reads a list of texts. -/
def readTexts : Reader RuleError (List String) :=
  readArray fault (readText fault)

/-- Reads a verb. -/
def readVerb : Reader RuleError Verb := fun ts =>
  match Patch.readVerb ts with
  | .ok r => .ok r
  | .error _ => .error fault

/-- The members of a rule. -/
def ruleShape : Shape RuleError RuleDraft :=
  let fields := readOnce RuleDraft.fields (fun s a => { s with fields := some a }) readTexts
  let verbs :=
    readOnce RuleDraft.verbs (fun s a => { s with verbs := some a }) (readArray fault readVerb)
  let platforms :=
    readOnce RuleDraft.platforms (fun s a => { s with platforms := some a })
      (readDictionary fault (readText fault))
  { fault
    named := fun
      | "fields" => some fields
      | "operations" => some verbs
      | "platforms" => some platforms
      | _ => none
    listed := [fields, verbs, platforms] }

/-- The members of the families. -/
def familiesShape : Shape RuleError FamiliesDraft :=
  let read := readDictionary fault readTexts
  let exact := readOnce FamiliesDraft.exact (fun s a => { s with exact := some a }) read
  let partly := readOnce FamiliesDraft.partly (fun s a => { s with partly := some a }) read
  { fault
    named := fun
      | "mellanox_asics" => some exact
      | "broadcom_asics" => some partly
      | _ => none
    listed := [exact, partly] }

/-- Reads the rules of a table. -/
def readTable : Reader RuleError (Option TableDraft) :=
  (single "validator_data" (readDictionary fault (readDictionary fault (ruleShape.read {})))).read
    none

/-- Reads the families inside the record around them. -/
def readFamilies : Reader RuleError (Option FamiliesDraft) :=
  (single "rdma_config_update_validator" (familiesShape.read {})).read none

/-- The members of a document. -/
def documentShape : Shape RuleError Draft :=
  let families :=
    readOnce Draft.families (fun s a => { s with families := some a }) fun ts => do
      let (a, ts) ← readFamilies ts
      return (a.getD {}, ts)
  let tables :=
    readOnce Draft.tables (fun s a => { s with tables := some a })
      (readDictionary fault fun ts => do
        let (a, ts) ← readTable ts
        return (a.getD [], ts))
  { fault
    named := fun
      | "helper_data" => some families
      | "tables" => some tables
      | _ => none
    listed := [families, tables] }

/-- The least builds of a rule as numbers. -/
def versions (table rule : String) :
    List (String × String) → Except RuleError (Dictionary String Nat)
  | [] => .ok []
  | (platform, value) :: rest =>
    match Text.unsigned? UInt32.size (Text.trim value) with
    | some n => return (platform, n) :: (← versions table rule rest)
    | none => .error (.invalidVersion table rule platform value)

/-- The rules of a check of a table. -/
def rulesOf (table validator : String) :
    List (String × RuleDraft) → Except RuleError (List Rule)
  | [] => .ok []
  | (name, r) :: rest => do
    let platforms ← versions table name (r.platforms.getD [])
    return ⟨table, validator, name, r.fields.getD [], r.verbs.getD [], platforms⟩ ::
      (← rulesOf table validator rest)

/-- The rules of a table. -/
def tableRules (table : String) : TableDraft → Except RuleError (List Rule)
  | [] => .ok []
  | (validator, named) :: rest =>
    return (← rulesOf table validator named) ++ (← tableRules table rest)

/-- The rules of all tables. -/
def allRules : Dictionary String TableDraft → Except RuleError (List Rule)
  | [] => .ok []
  | (table, checks) :: rest => return (← tableRules table checks) ++ (← allRules rest)

/-- Reads a rule document. -/
def parse (text : String) : Except RuleError RuleBook := do
  let draft ← readDocument fault (documentShape.read {}) text
  let families := draft.families.getD {}
  return ⟨⟨families.exact.getD [], families.partly.getD []⟩, ← allRules (draft.tables.getD [])⟩

/-- Reads a rule document from the disk. -/
def load (disk : Disk) (path : String) : Except RuleError RuleBook :=
  match disk.fileText path with
  | .ok text => parse text
  | .error fault => .error (.disk path fault)

end ConfigUpdate.RuleBook
