import ConfigUpdate.Proofs.AcceptedMoves

/-!
# Fields of the watchdog and the buffers keep to the rules

An accepted update changes such a field only where the first rule about it allows that, and gives it a value
only where the build that runs is not too old for the rule: `Gate.changed_field_ruled`. Whole entries and tables
may be removed without a rule, and a whole buffer profile may come as well. The rules know a field by its own
name, except those of a buffer pool and of the watchdog itself: `TrafficCheck.ruleField_bufferPool`,
`TrafficCheck.ruleField_global`.
-/

namespace ConfigUpdate

/-- Whether a rule of a check is about a field of a table. -/
def Rule.Covers (rule : Rule) (table validator field : String) : Prop :=
  rule.table = table ∧ rule.validator = validator ∧ field ∈ rule.fields

/-- Whether a rule runs on a build of a family: it has a least build for the family, which is not above. -/
def Rule.RunsOn (rule : Rule) (family : String) (build : Nat) : Prop :=
  ∃ least, Dictionary.get? rule.platforms family = some least ∧ least ≤ build

/-- Whether a rule is the first one of a check about a field of a table. -/
def RuleBook.IsFirst (book : RuleBook) (table validator field : String) (rule : Rule) : Prop :=
  ∃ earlier later, book.rules = earlier ++ rule :: later ∧ rule.Covers table validator field ∧
    ∀ r ∈ earlier, ¬ r.Covers table validator field

theorem RuleBook.find?_eq_some_iff {book : RuleBook} {table validator field : String} {rule : Rule} :
    book.find? table validator field = some rule ↔ book.IsFirst table validator field rule := by
  have hcovers : ∀ r : Rule,
      (r.table == table && r.validator == validator && r.fields.contains field) = true ↔
        r.Covers table validator field := by
    simp [Rule.Covers, and_assoc]
  simp only [find?, List.find?_eq_some_iff_append, hcovers, Bool.not_eq_true', ← Bool.not_eq_true]
  constructor
  · rintro ⟨hrule, earlier, later, hsplit, hearlier⟩
    exact ⟨earlier, later, hsplit, hrule, hearlier⟩
  · rintro ⟨earlier, later, hsplit, hrule, hearlier⟩
    exact ⟨hrule, earlier, later, hsplit, hearlier⟩

namespace TrafficCheck

/-- The name of the family of a switch. -/
def family (platform : Platform) (book : RuleBook) : String :=
  book.families.resolve platform.chipType platform.model

/-! ## Names of fields -/

theorem ruleField_bufferPool (key field : String) : ruleField "BUFFER_POOL" key field = key ++ "/" ++ field :=
  rfl

theorem ruleField_global (field : String) :
    ruleField "PFC_WD" "GLOBAL" field = "global/" ++ Text.toLower field := rfl

/-- All other fields go by their own names. -/
theorem ruleField_of_ne {table key : String} (field : String) (hpool : table ≠ "BUFFER_POOL")
    (hglobal : table = "PFC_WD" → key ≠ "GLOBAL") : ruleField table key field = field := by
  by_cases htable : table = "PFC_WD"
  · subst htable
    simp [ruleField, hglobal rfl]
  · simp [ruleField]

/-! ## Permitted changes -/

/-- A rule that permits a switch to make a change of a field of a table. -/
structure Permits (platform : Platform) (book : RuleBook) (verb : Verb) (table field : String) (rule : Rule)
    (build : Nat) : Prop where
  known_family : family platform book ≠ ChipFamilies.unknown
  known_build : platform.buildNumber? = some build
  first : book.IsFirst table name field rule
  verb_mem : verb ∈ rule.verbs

theorem ruleFault?_eq_none_iff {rule : Option Rule} {verb : Verb} {family : String} {build : Nat} :
    ruleFault? rule verb family build = none ↔
      ∃ r, rule = some r ∧ verb ∈ r.verbs ∧ (verb ≠ .remove → r.RunsOn family build) := by
  cases rule with
  | none => simp [ruleFault?]
  | some r =>
    by_cases hverb : verb ∈ r.verbs
    · have hempty : r.verbs ≠ [] := List.ne_nil_of_mem hverb
      by_cases hremove : verb = .remove
      · simp [ruleFault?, hempty, hremove ▸ hverb, hremove]
      · cases hleast : Dictionary.get? r.platforms family with
        | none => simp [ruleFault?, hempty, hverb, hremove, hleast, Rule.RunsOn]
        | some least => simp [ruleFault?, hempty, hverb, hremove, hleast, Rule.RunsOn]
    · by_cases hempty : r.verbs = []
      · simp [ruleFault?, hempty]
      · simp [ruleFault?, hempty, hverb]

variable {platform : Platform} {book : RuleBook} {e : Edit} {t : FieldTouch}

theorem checkField_eq_ok_iff {family : String} {build : Nat} :
    checkField book family build e t = .ok () ↔
      ∃ rule, book.IsFirst e.table name (ruleField e.table t.key t.field) rule ∧ e.verb ∈ rule.verbs ∧
        (e.verb ≠ .remove → rule.RunsOn family build) := by
  simp only [← RuleBook.find?_eq_some_iff, ← ruleFault?_eq_none_iff]
  rw [checkField]
  cases ruleFault? (book.find? e.table name (ruleField e.table t.key t.field)) e.verb family build <;> simp

/-- Every field that an edit touches has a rule that permits it, unless the edit removes a whole entry or table. -/
theorem exists_permits_of_check (h : check platform book e = .ok ())
    (hedit : e.verb = .remove → e.path.granularity = .field) (ht : t ∈ e.fields) :
    ∃ rule build, Permits platform book e.verb e.table (ruleField e.table t.key t.field) rule build ∧
      (e.verb ≠ .remove → rule.RunsOn (family platform book) build) := by
  have hnot : ¬ (e.verb = .remove ∧ e.path.granularity ≠ .field) := fun ⟨hv, hg⟩ => hg (hedit hv)
  rw [check, if_neg hnot] at h
  by_cases hfamily : book.families.resolve platform.chipType platform.model = ChipFamilies.unknown
  · simp [hfamily] at h
  · rw [if_neg hfamily] at h
    cases hbuild : platform.buildNumber? with
    | none => simp [hbuild] at h
    | some build =>
      rw [hbuild] at h
      obtain ⟨rule, hfirst, hverb, hruns⟩ := checkField_eq_ok_iff.1 (forM_eq_ok_iff.1 h t ht)
      exact ⟨rule, build, ⟨hfamily, hbuild, hfirst, hverb⟩, hruns⟩

end TrafficCheck

namespace Gate

/-- Whether the fields of an entry need rules: in the table of the watchdog and of the buffer pools always, and
those of a buffer profile if it was an object and stays one. -/
def NeedsRules (current target : Value) (table key : String) : Prop :=
  table = "PFC_WD" ∨ table = "BUFFER_POOL" ∨
    table = "BUFFER_PROFILE" ∧ current.BothObjects target [table, key]

variable {g : Gate} {scope : Scope} {current target : Value} {table key field : String}

/-- An accepted edit of such an entry has been checked against the rules. -/
theorem check_of_needsRules {e : Edit} (hrules : NeedsRules current target table key)
    (hcheck : g.checkBelowRoot scope e = .ok ()) (htable : e.table = table)
    (hfield : current.BothObjects target [table, key] → e.path.granularity = .field) :
    TrafficCheck.check g.platform g.rules e = .ok () := by
  have hchecks := (checkBelowRoot_eq_ok_iff.1 hcheck).2
  rw [htable] at hchecks
  obtain rfl | rfl | ⟨rfl, hobjects⟩ := hrules
  · exact hchecks .traffic (List.mem_singleton_self _)
  · exact hchecks .traffic (List.mem_singleton_self _)
  · have hprofile : TrafficCheck.checkProfile g.platform g.rules e = .ok () :=
      hchecks .bufferProfile (List.mem_singleton_self _)
    rwa [TrafficCheck.checkProfile, if_pos (hfield hobjects)] at hprofile

theorem exists_permits_of_value (hc : current.WellFormed) (ht : target.WellFormed)
    (hok : g.checkMoves scope (diff current target) = .ok ()) (hrules : NeedsRules current target table key)
    {x : Value} (hx : target.memberAt [table, key, field] = some x) {m : Move} (hm : m ∈ diff current target)
    (hp : m.path <+: Pointer.ofNames [table, key, field]) :
    ∃ rule build,
      TrafficCheck.Permits g.platform g.rules m.kind.verb table (TrafficCheck.ruleField table key field) rule
        build ∧
      rule.RunsOn (TrafficCheck.family g.platform g.rules) build := by
  obtain ⟨e, hverb, hnot, hpath, hcheck, htable, htouch⟩ := exists_touch hc ht hok hm hp hx
  have htraffic : TrafficCheck.check g.platform g.rules e = .ok () := by
    -- Inside a profile that stays an object, the move is made at the field itself.
    refine check_of_needsRules hrules hcheck htable fun hobjects => ?_
    have hplace := path_eq_of_bothObjects hc ht hm hobjects hp
    rw [hpath (by simp [hplace, Pointer.ofNames]), hplace]
    rfl
  obtain ⟨rule, build, hpermits, hruns⟩ :=
    TrafficCheck.exists_permits_of_check htraffic (fun hv => absurd hv hnot) htouch
  rw [hverb, htable] at hpermits
  exact ⟨rule, build, hpermits, hruns hnot⟩

theorem exists_permits_of_removal (hc : current.WellFormed) (ht : target.WellFormed)
    (hok : g.checkMoves scope (diff current target) = .ok ()) (hrules : NeedsRules current target table key)
    (hobjects : current.BothObjects target [table, key]) {x : Value}
    (hx : current.memberAt [table, key, field] = some x) (hnone : target.memberAt [table, key, field] = none) :
    ∃ rule build,
      TrafficCheck.Permits g.platform g.rules .remove table (TrafficCheck.ruleField table key field) rule
        build := by
  obtain ⟨-, ns, -, hns⟩ := hobjects
  obtain ⟨e, hverb, hpath, hcheck⟩ : ∃ e : Edit, e.verb = .remove ∧
      e.path = Pointer.ofNames [table, key, field] ∧ g.checkBelowRoot scope e = .ok () :=
    exists_removing_edit hc ht hok hx hnone hns
  have htable : e.table = table := Edit.table_of_path hpath
  have hgranularity : e.path.granularity = .field := by
    rw [hpath]
    rfl
  have htraffic := check_of_needsRules hrules hcheck htable fun _ => hgranularity
  have htouch : (⟨key, field, e.value⟩ : FieldTouch) ∈ e.fields := by
    rw [Edit.fields_of_field hpath]
    exact List.mem_singleton_self _
  obtain ⟨rule, build, hpermits, -⟩ :=
    TrafficCheck.exists_permits_of_check htraffic (fun _ => hgranularity) htouch
  rw [hverb, htable] at hpermits
  exact ⟨rule, build, hpermits⟩

/-- A field that an accepted update sets has a rule that permits the move which sets it, on the build that runs;
and a field that it removes from an entry has one that permits the removal. -/
theorem changed_field_ruled (g : Gate) (scope : Scope) (current target : Value) (hc : current.WellFormed)
    (ht : target.WellFormed) (hok : g.checkMoves scope (diff current target) = .ok ())
    (table key field : String) (hrules : NeedsRules current target table key) :
    ((target.memberAt [table, key, field]).isSome = true → current.Differ target [table, key, field] →
      (∃ m ∈ diff current target, m.path <+: Pointer.ofNames [table, key, field]) ∧
      ∀ m ∈ diff current target, m.path <+: Pointer.ofNames [table, key, field] →
        ∃ rule build,
          TrafficCheck.Permits g.platform g.rules m.kind.verb table
            (TrafficCheck.ruleField table key field) rule build ∧
          rule.RunsOn (TrafficCheck.family g.platform g.rules) build) ∧
    (current.BothObjects target [table, key] → (current.memberAt [table, key, field]).isSome = true →
      target.memberAt [table, key, field] = none →
      ∃ rule build,
        TrafficCheck.Permits g.platform g.rules .remove table (TrafficCheck.ruleField table key field) rule
          build) := by
  constructor
  · intro hsome hdiffer
    obtain ⟨x, hx⟩ := Option.isSome_iff_exists.1 hsome
    exact ⟨exists_move_above hc ht hdiffer,
      fun m hm hp => exists_permits_of_value hc ht hok hrules hx hm hp⟩
  · intro hobjects hsome hnone
    obtain ⟨x, hx⟩ := Option.isSome_iff_exists.1 hsome
    exact exists_permits_of_removal hc ht hok hrules hobjects hx hnone

/-- A switch with a buffer pool, a watched port and a setting of the watchdog itself. -/
def watchedSwitch : Value :=
  .object [
    ("BUFFER_POOL", .object [("ingress_lossless_pool", .object [("size", .ofString "1024")])]),
    ("PFC_WD", .object [
      ("Ethernet0", .object [("action", .ofString "drop"), ("detection_time", .ofString "200")]),
      ("GLOBAL", .object [("POLL_INTERVAL", .ofString "100")])])]

/-- The switch with a larger pool, another action of the port and another setting, and without the other field
of the port. -/
def retunedSwitch : Value :=
  .object [
    ("BUFFER_POOL", .object [("ingress_lossless_pool", .object [("size", .ofString "2048")])]),
    ("PFC_WD", .object [
      ("Ethernet0", .object [("action", .ofString "forward")]),
      ("GLOBAL", .object [("POLL_INTERVAL", .ofString "400")])])]

/-- The rules know the field of the port by its name, that of the pool with the key in front of it, and that of
the watchdog itself in lower case. -/
theorem changed_field_ruled_retunedSwitch :
    (onFirstFamily []).checkMoves .host (diff watchedSwitch retunedSwitch) = .ok () ∧
      (∃ rule build, TrafficCheck.Permits (onFirstFamily []).platform .builtin .replace "PFC_WD" "action"
          rule build ∧
        rule.RunsOn (TrafficCheck.family (onFirstFamily []).platform .builtin) build) ∧
      (∃ rule build, TrafficCheck.Permits (onFirstFamily []).platform .builtin .replace "BUFFER_POOL"
          "ingress_lossless_pool/size" rule build ∧
        rule.RunsOn (TrafficCheck.family (onFirstFamily []).platform .builtin) build) ∧
      (∃ rule build, TrafficCheck.Permits (onFirstFamily []).platform .builtin .replace "PFC_WD"
          "global/poll_interval" rule build ∧
        rule.RunsOn (TrafficCheck.family (onFirstFamily []).platform .builtin) build) ∧
      ∃ rule build, TrafficCheck.Permits (onFirstFamily []).platform .builtin .remove "PFC_WD"
        "detection_time" rule build := by
  have hc : watchedSwitch.WellFormed := by decide
  have ht : retunedSwitch.WellFormed := by decide
  have hok : (onFirstFamily []).checkMoves .host (diff watchedSwitch retunedSwitch) = .ok () := rfl
  have hsize : Move.replace (.ofNames ["BUFFER_POOL", "ingress_lossless_pool", "size"]) (.ofString "1024")
      (.ofString "2048") ∈ diff watchedSwitch retunedSwitch := List.mem_cons_self
  have haction : Move.replace (.ofNames ["PFC_WD", "Ethernet0", "action"]) (.ofString "drop")
      (.ofString "forward") ∈ diff watchedSwitch retunedSwitch := List.mem_cons_of_mem _ List.mem_cons_self
  have hinterval : Move.replace (.ofNames ["PFC_WD", "GLOBAL", "POLL_INTERVAL"]) (.ofString "100")
      (.ofString "400") ∈ diff watchedSwitch retunedSwitch :=
    List.mem_cons_of_mem _ (List.mem_cons_of_mem _ (List.mem_cons_of_mem _ List.mem_cons_self))
  have hruled := changed_field_ruled (onFirstFamily []) .host watchedSwitch retunedSwitch hc ht hok
  obtain ⟨hsets, -⟩ := hruled "PFC_WD" "Ethernet0" "action" (.inl rfl)
  obtain ⟨hsets', -⟩ := hruled "BUFFER_POOL" "ingress_lossless_pool" "size" (.inr (.inl rfl))
  obtain ⟨hsets'', -⟩ := hruled "PFC_WD" "GLOBAL" "POLL_INTERVAL" (.inl rfl)
  obtain ⟨-, hremoves⟩ := hruled "PFC_WD" "Ethernet0" "detection_time" (.inl rfl)
  exact ⟨hok, (hsets rfl (.of_not_object Bool.false_ne_true nofun)).2 _ haction List.prefix_rfl,
    (hsets' rfl (.of_not_object Bool.false_ne_true nofun)).2 _ hsize List.prefix_rfl,
    (hsets'' rfl (.of_not_object Bool.false_ne_true nofun)).2 _ hinterval List.prefix_rfl,
    hremoves ⟨_, _, rfl, rfl⟩ rfl rfl⟩

end Gate

end ConfigUpdate
