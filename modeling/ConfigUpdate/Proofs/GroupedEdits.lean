import ConfigUpdate.Proofs.PortLimits
import ConfigUpdate.Proofs.TrafficRules

/-!
# Grouped edits

An edit of a table touches the fields that the edits of its entries touch, and each of these the fields that it
names. What the checks of a table say about an edit that does not remove depends on the fields alone
(`Gate.checkBelowRoot_iff_of_divides`), so it does not matter to the gate how such edits are grouped:
`Gate.accepts_grouped`. The one exception are buffer profiles, which come and go freely as a whole.
-/

namespace ConfigUpdate

/-- Edits of the same table with the same verb that touch, between them, the fields of an edit. -/
structure Edit.Divides (e : Edit) (parts : List Edit) : Prop where
  nonempty : parts ≠ []
  verb : ∀ part ∈ parts, part.verb = e.verb
  table : ∀ part ∈ parts, part.table = e.table
  fields : ∀ t, t ∈ e.fields ↔ ∃ part ∈ parts, t ∈ part.fields

variable {e : Edit} {parts : List Edit}

/-! ## The checks of a table -/

/-- What is published decides; the edit only gives the words of a refusal. -/
theorem PortCheck.refuseFor_congr {read : Except UpdateError (Option String)} {e e' : Edit} {port field : String}
    {fault : Option String → Option String}
    (h : (read >>= fun list => refuseFor e port field (fault list)) = .ok ()) :
    (read >>= fun list => refuseFor e' port field (fault list)) = .ok () := by
  obtain ⟨list, rfl, hfault⟩ := exists_of_bind_eq_ok h
  exact refuseFor_eq_ok_iff.2 (refuseFor_eq_ok_iff.1 hfault)

theorem PortCheck.checkField_congr {chassis : Bool} {state : DeviceState} {scope : Scope} {e e' : Edit}
    {t : FieldTouch} (h : checkField chassis state scope e t = .ok ()) :
    checkField chassis state scope e' t = .ok () := by
  obtain ⟨key, field, value⟩ := t
  cases value with
  | none => rfl
  | some v =>
    unfold checkField at h ⊢
    dsimp only at h ⊢
    split at h
    · by_cases hchassis : chassis = true
      · rw [if_pos hchassis]
        rfl
      · rw [if_neg hchassis] at h ⊢
        exact refuseFor_congr h
    · exact refuseFor_congr h
    · rfl

theorem PortCheck.check_iff_of_divides {chassis : Bool} {state : DeviceState} {scope : Scope}
    (hverb : e.verb ≠ .remove) (h : e.Divides parts) :
    check chassis state scope e = .ok () ↔ ∀ part ∈ parts, check chassis state scope part = .ok () := by
  have hcheck : ∀ part ∈ parts, (check chassis state scope part = .ok () ↔
      ∀ t ∈ part.fields, checkField chassis state scope part t = .ok ()) := by
    intro part hpart
    rw [check, if_neg (h.verb part hpart ▸ hverb), forM_eq_ok_iff]
  rw [check, if_neg hverb, forM_eq_ok_iff]
  constructor
  · intro hfields part hpart
    refine (hcheck part hpart).2 fun t ht => checkField_congr (hfields t ?_)
    exact (h.fields t).2 ⟨part, hpart, ht⟩
  · intro hparts t ht
    obtain ⟨part, hpart, ht⟩ := (h.fields t).1 ht
    exact checkField_congr ((hcheck part hpart).1 (hparts part hpart) t ht)

namespace TrafficCheck

variable {platform : Platform} {book : RuleBook}

theorem check_eq_ok_iff (hverb : e.verb ≠ .remove) : check platform book e = .ok () ↔
    family platform book ≠ ChipFamilies.unknown ∧ ∃ build, platform.buildNumber? = some build ∧
      ∀ t ∈ e.fields, checkField book (family platform book) build e t = .ok () := by
  rw [check, if_neg fun hremoval => hverb hremoval.1]
  dsimp only
  by_cases hfamily : book.families.resolve platform.chipType platform.model = ChipFamilies.unknown
  · simp [family, hfamily]
  · rw [if_neg hfamily]
    cases hbuild : platform.buildNumber? with
    | none => simp
    | some build =>
      dsimp only
      rw [forM_eq_ok_iff]
      simp [family, hfamily]

/-- The switch has to be known even where no field is touched, so an edit needs a part to be divided. -/
theorem check_iff_of_divides (hverb : e.verb ≠ .remove) (h : e.Divides parts) :
    check platform book e = .ok () ↔ ∀ part ∈ parts, check platform book part = .ok () := by
  have hcheck : ∀ part ∈ parts, (check platform book part = .ok () ↔ _) :=
    fun part hpart => check_eq_ok_iff (h.verb part hpart ▸ hverb)
  have hfield : ∀ part ∈ parts, ∀ (build : Nat) (t : FieldTouch),
      checkField book (family platform book) build part t = .ok () ↔
        checkField book (family platform book) build e t = .ok () := by
    intro part hpart build t
    rw [checkField_eq_ok_iff, checkField_eq_ok_iff, h.verb part hpart, h.table part hpart]
  rw [check_eq_ok_iff hverb]
  constructor
  · rintro ⟨hfamily, build, hbuild, hfields⟩ part hpart
    refine (hcheck part hpart).2 ⟨hfamily, build, hbuild, fun t ht => ?_⟩
    exact (hfield part hpart build t).2 (hfields t ((h.fields t).2 ⟨part, hpart, ht⟩))
  · intro hparts
    obtain ⟨first, hfirst⟩ := List.exists_mem_of_ne_nil parts h.nonempty
    obtain ⟨hfamily, build, hbuild, -⟩ := (hcheck first hfirst).1 (hparts first hfirst)
    refine ⟨hfamily, build, hbuild, fun t ht => ?_⟩
    obtain ⟨part, hpart, ht⟩ := (h.fields t).1 ht
    obtain ⟨-, build', hbuild', hfields⟩ := (hcheck part hpart).1 (hparts part hpart)
    obtain rfl : build = build' := Option.some.inj (hbuild.symm.trans hbuild')
    exact (hfield part hpart build t).1 (hfields t ht)

end TrafficCheck

theorem TableCheck.ne_bufferProfile_of_mem {table : String} (htable : table ≠ "BUFFER_PROFILE") {c : TableCheck}
    (hc : c ∈ ofTable table) : c ≠ .bufferProfile := by
  rintro rfl
  unfold ofTable at hc
  split at hc
  · simp at hc
  · simp at hc
  · simp at hc
  · exact htable rfl
  · simp at hc

/-! ## The gate -/

namespace Gate

variable {g : Gate} {scope : Scope}

/-- The gate accepts an edit. -/
def Accepts (g : Gate) (scope : Scope) (e : Edit) : Prop :=
  g.check scope e = .ok ()

theorem checkProtected_eq_ok (hverb : e.verb ≠ .remove) : checkProtected e = .ok () := by
  rw [checkProtected, if_neg hverb]

/-- An edit that does not remove passes exactly if its parts do. -/
theorem checkBelowRoot_iff_of_divides (hverb : e.verb ≠ .remove) (htable : e.table ≠ "BUFFER_PROFILE")
    (h : e.Divides parts) :
    g.checkBelowRoot scope e = .ok () ↔ ∀ part ∈ parts, g.checkBelowRoot scope part = .ok () := by
  have hpart : ∀ part ∈ parts, (g.checkBelowRoot scope part = .ok () ↔
      ∀ c ∈ TableCheck.ofTable e.table, g.checkTable scope part c = .ok ()) := by
    intro part hpart
    rw [checkBelowRoot_eq_ok_iff, h.table part hpart]
    exact and_iff_right (checkProtected_eq_ok (h.verb part hpart ▸ hverb))
  have hcheck : ∀ c ∈ TableCheck.ofTable e.table, (g.checkTable scope e c = .ok () ↔
      ∀ part ∈ parts, g.checkTable scope part c = .ok ()) := by
    intro c hc
    cases c with
    | port => exact PortCheck.check_iff_of_divides hverb h
    | traffic => exact TrafficCheck.check_iff_of_divides hverb h
    | bufferProfile => exact absurd rfl (TableCheck.ne_bufferProfile_of_mem htable hc)
  rw [checkBelowRoot_eq_ok_iff, and_iff_right (checkProtected_eq_ok hverb)]
  constructor
  · intro hall part hmem
    exact (hpart part hmem).2 fun c hc => (hcheck c hc).1 (hall c hc) part hmem
  · intro hall c hc
    exact (hcheck c hc).2 fun part hmem => (hpart part hmem).1 (hall part hmem) c hc

theorem accepts_ofNames (verb : Verb) (table : String) (names : List String) (value : Option Value) :
    g.Accepts scope ⟨verb, Pointer.ofNames (table :: names), value⟩ ↔
      g.checkBelowRoot scope ⟨verb, Pointer.ofNames (table :: names), value⟩ = .ok () := by
  rw [Accepts, check, if_neg (by simp [Pointer.ofNames])]

end Gate

namespace Edit

variable {verb : Verb} {table : String} {entries : Dictionary String (Dictionary String Value)}

/-- The edit of a table by entries that are objects of fields. -/
def ofEntries (verb : Verb) (table : String) (entries : Dictionary String (Dictionary String Value)) : Edit :=
  ⟨verb, Pointer.ofNames [table], some (.object (entries.mapValues .object))⟩

/-- The edit of an entry that is an object of fields. -/
def ofFields (verb : Verb) (table key : String) (fields : Dictionary String Value) : Edit :=
  ⟨verb, Pointer.ofNames [table, key], some (.object fields)⟩

/-- The edit of a field. -/
def ofField (verb : Verb) (table key field : String) (value : Value) : Edit :=
  ⟨verb, Pointer.ofNames [table, key, field], some value⟩

theorem mem_fields_ofField {key field : String} {value : Value} {t : FieldTouch} :
    t ∈ (ofField verb table key field value).fields ↔ t = ⟨key, field, some value⟩ := by
  rw [ofField, fields_of_field rfl, List.mem_singleton]

theorem mem_fields_ofFields {key : String} {fields : Dictionary String Value} {t : FieldTouch} :
    t ∈ (ofFields verb table key fields).fields ↔ ∃ f ∈ fields, t = ⟨key, f.1, some f.2⟩ := by
  have hfields : (ofFields verb table key fields).fields = fields.map fun f => ⟨key, f.1, some f.2⟩ := rfl
  rw [hfields, List.mem_map]
  simp only [eq_comm]

theorem mem_fields_ofEntries {t : FieldTouch} : t ∈ (ofEntries verb table entries).fields ↔
    ∃ entry ∈ entries, ∃ f ∈ entry.2, t = ⟨entry.1, f.1, some f.2⟩ := by
  have hfields : (ofEntries verb table entries).fields
      = (entries.mapValues .object).flatMap fun entry => entryFields entry.1 entry.2 := rfl
  have hentry : ∀ entry : String × Dictionary String Value,
      entryFields entry.1 (.object entry.2) = entry.2.map fun f => ⟨entry.1, f.1, some f.2⟩ := fun _ => rfl
  rw [hfields, Dictionary.mapValues, List.flatMap_map, List.mem_flatMap]
  simp only [hentry, List.mem_map, eq_comm]

/-- A table is divided into its entries. -/
theorem divides_entries (h : entries ≠ []) :
    (ofEntries verb table entries).Divides (entries.map fun entry => ofFields verb table entry.1 entry.2) where
  nonempty := by simpa using h
  verb := by
    simp only [List.forall_mem_map]
    exact fun _ _ => rfl
  table := by
    simp only [List.forall_mem_map]
    exact fun _ _ => rfl
  fields t := by
    rw [mem_fields_ofEntries]
    constructor
    · rintro ⟨entry, hentry, hfield⟩
      exact ⟨_, List.mem_map.2 ⟨entry, hentry, rfl⟩, mem_fields_ofFields.2 hfield⟩
    · rintro ⟨part, hpart, ht⟩
      obtain ⟨entry, hentry, rfl⟩ := List.mem_map.1 hpart
      exact ⟨entry, hentry, mem_fields_ofFields.1 ht⟩

/-- A table is divided into the fields of its entries. -/
theorem divides_fields (h : ∃ entry ∈ entries, entry.2 ≠ []) :
    (ofEntries verb table entries).Divides (entries.flatMap fun entry =>
      entry.2.map fun f => ofField verb table entry.1 f.1 f.2) where
  nonempty := by
    obtain ⟨entry, hentry, hfields⟩ := h
    simp only [ne_eq, List.flatMap_eq_nil_iff, List.map_eq_nil_iff, not_forall]
    exact ⟨entry, hentry, hfields⟩
  verb := by
    simp only [List.forall_mem_flatMap, List.forall_mem_map]
    exact fun _ _ _ _ => rfl
  table := by
    simp only [List.forall_mem_flatMap, List.forall_mem_map]
    exact fun _ _ _ _ => rfl
  fields t := by
    rw [mem_fields_ofEntries]
    constructor
    · rintro ⟨entry, hentry, f, hf, rfl⟩
      exact ⟨_, List.mem_flatMap.2 ⟨entry, hentry, List.mem_map.2 ⟨f, hf, rfl⟩⟩, mem_fields_ofField.2 rfl⟩
    · rintro ⟨part, hpart, ht⟩
      obtain ⟨entry, hentry, hpart⟩ := List.mem_flatMap.1 hpart
      obtain ⟨f, hf, rfl⟩ := List.mem_map.1 hpart
      exact ⟨entry, hentry, f, hf, mem_fields_ofField.1 ht⟩

end Edit

namespace Gate

variable {g : Gate} {scope : Scope}

/-- The gate accepts an edit of a table exactly if it accepts all edits of the entries, and exactly if it accepts
all edits of the fields, of which there is one at least; and it accepts an edit of the whole configuration
exactly if it accepts all edits of the tables. It need not even be able to read what the device publishes. -/
theorem accepts_grouped (g : Gate) (scope : Scope) (verb : Verb) :
    (verb ≠ .remove → ∀ table, table ≠ "BUFFER_PROFILE" →
      ∀ entries : Dictionary String (Dictionary String Value), (∃ entry ∈ entries, entry.2 ≠ []) →
        (g.Accepts scope ⟨verb, Pointer.ofNames [table], some (.object (entries.mapValues .object))⟩ ↔
          ∀ entry ∈ entries,
            g.Accepts scope ⟨verb, Pointer.ofNames [table, entry.1], some (.object entry.2)⟩) ∧
        (g.Accepts scope ⟨verb, Pointer.ofNames [table], some (.object (entries.mapValues .object))⟩ ↔
          ∀ entry ∈ entries, ∀ field ∈ entry.2,
            g.Accepts scope ⟨verb, Pointer.ofNames [table, entry.1, field.1], some field.2⟩)) ∧
    ∀ tables : Dictionary String Value,
      g.Accepts scope ⟨verb, [], some (.object tables)⟩ ↔
        ∀ table ∈ tables, g.Accepts scope ⟨verb, Pointer.ofNames [table.1], some table.2⟩ := by
  constructor
  · intro hverb table htable entries hfield
    have hentries : entries ≠ [] := by
      obtain ⟨entry, hentry, -⟩ := hfield
      exact List.ne_nil_of_mem hentry
    have hset : (Edit.ofEntries verb table entries).verb ≠ .remove := hverb
    have hplace : (Edit.ofEntries verb table entries).table ≠ "BUFFER_PROFILE" := htable
    have hparts : g.checkBelowRoot scope (.ofEntries verb table entries) = .ok () ↔
        ∀ entry ∈ entries, g.checkBelowRoot scope (.ofFields verb table entry.1 entry.2) = .ok () := by
      rw [checkBelowRoot_iff_of_divides hset hplace (Edit.divides_entries hentries), List.forall_mem_map]
    have hfields : g.checkBelowRoot scope (.ofEntries verb table entries) = .ok () ↔
        ∀ entry ∈ entries, ∀ field ∈ entry.2,
          g.checkBelowRoot scope (.ofField verb table entry.1 field.1 field.2) = .ok () := by
      rw [checkBelowRoot_iff_of_divides hset hplace (Edit.divides_fields hfield)]
      simp only [List.forall_mem_flatMap, List.forall_mem_map]
    simp only [accepts_ofNames]
    exact ⟨hparts, hfields⟩
  · intro tables
    simp only [accepts_ofNames]
    rw [Accepts, check, if_pos List.isEmpty_nil, forM_eq_ok_iff]
    exact List.forall_mem_map

/-- The entries of two watched ports, of which one has no fields yet. -/
def twoWatchedPorts : Dictionary String (Dictionary String Value) :=
  [("Ethernet0", [("action", .ofString "drop"), ("detection_time", .ofString "200")]), ("Ethernet4", [])]

/-- The gate accepts the ports with their table, so it accepts them one by one and field by field. -/
theorem accepts_grouped_twoWatchedPorts :
    (onFirstFamily []).Accepts .host
        ⟨.add, Pointer.ofNames ["PFC_WD"], some (.object (twoWatchedPorts.mapValues .object))⟩ ∧
      (∀ entry ∈ twoWatchedPorts, (onFirstFamily []).Accepts .host
        ⟨.add, Pointer.ofNames ["PFC_WD", entry.1], some (.object entry.2)⟩) ∧
      ∀ entry ∈ twoWatchedPorts, ∀ field ∈ entry.2, (onFirstFamily []).Accepts .host
        ⟨.add, Pointer.ofNames ["PFC_WD", entry.1, field.1], some field.2⟩ := by
  have hfield : ∃ entry ∈ twoWatchedPorts, entry.2 ≠ [] :=
    ⟨_, List.mem_cons_self, List.cons_ne_nil _ _⟩
  have htable : (onFirstFamily []).Accepts .host
      ⟨.add, Pointer.ofNames ["PFC_WD"], some (.object (twoWatchedPorts.mapValues .object))⟩ := rfl
  obtain ⟨hentries, hfields⟩ := (accepts_grouped (onFirstFamily []) .host .add).1 (by decide) "PFC_WD"
    (by decide) twoWatchedPorts hfield
  exact ⟨htable, hentries.1 htable, hfields.1 htable⟩

end Gate

end ConfigUpdate
