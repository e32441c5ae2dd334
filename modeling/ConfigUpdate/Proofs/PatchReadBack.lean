import ConfigUpdate.Patch.Document
import ConfigUpdate.Proofs.Difference
import ConfigUpdate.Proofs.PointerText
import ConfigUpdate.Proofs.RecordReadBack

/-!
# Reading patches back

The operations of a patch are read back from its text, on one line or on many, except that a value of `null` is
not told from none: `Patch.parse_written`. So a patch is lost in its text just if an operation has the value
`null` (`Patch.exists_unreadable`). The moves of a plan are such operations (`Patch.parse_plan`).
-/

namespace ConfigUpdate

namespace Value

/-- The value as it is read as a member that may be missing. -/
def unlessNull : Value → Option Value
  | .scalar .null => none
  | v => some v

theorem unlessNull_of_ne {v : Value} (h : v ≠ .scalar .null) : v.unlessNull = some v := by
  unfold unlessNull
  split
  · exact absurd rfl h
  · rfl

end Value

namespace Operation

/-- The operation without a value of `null`. -/
def withoutNull (op : Operation) : Operation :=
  { op with value := op.value.bind Value.unlessNull }

theorem withoutNull_eq_iff {op : Operation} : op.withoutNull = op ↔ op.value ≠ some (.scalar .null) := by
  obtain ⟨verb, path, value, source⟩ := op
  cases value with
  | none => exact iff_of_true rfl nofun
  | some v =>
    by_cases hnull : v = .scalar .null
    · subst hnull
      exact iff_of_false nofun fun h => h rfl
    · refine iff_of_true ?_ fun h => hnull (Option.some.inj h)
      simp only [withoutNull, Option.bind_some, Value.unlessNull_of_ne hnull]

/-- The operation can be written: its paths consist of names, and its value is one that can be read. -/
structure Printable (op : Operation) : Prop where
  path : op.path.Named
  source : ∀ source, op.source = some source → source.Named
  wellFormed : ∀ v, op.value = some v → v.WellFormed
  integral : ∀ v, op.value = some v → v.Integral
  depth_le : ∀ v, op.value = some v → v.depth ≤ Patch.valueDepth

theorem Printable.of_value {verb : Verb} {path : Pointer} {v : Value} (hpath : path.Named) (h : v.WellFormed)
    (hintegral : v.Integral) (hdepth : v.depth ≤ Patch.valueDepth) : Printable ⟨verb, path, some v, none⟩ where
  path := hpath
  source := nofun
  wellFormed := fun _ heq => Option.some.inj heq ▸ h
  integral := fun _ heq => Option.some.inj heq ▸ hintegral
  depth_le := fun _ heq => Option.some.inj heq ▸ hdepth

end Operation

namespace Patch

open Json

variable {ops : List Operation} {op : Operation} {text : String}

/-! ## Members -/

theorem finds_readVerb (verb : Verb) : Reader.Finds readVerb (.ofString verb.word) verb := by
  intro ts
  cases verb <;> rfl

theorem finds_readPointer {p : Pointer} (h : p.Named) : Reader.Finds readPointer (.ofString p.text) p := by
  intro ts
  have hparse := Pointer.parse_text h
  simp [Value.ofString, tokensOf, leafToken, readPointer, hparse]

theorem finds_readValue {v : Value} (h : v.WellFormed) (hdepth : v.depth ≤ valueDepth) :
    Reader.Finds readValue v v := by
  intro ts
  have hread : readValue? valueDepth (tokensOf v ++ ts) = closeInside valueDepth [] v ts :=
    readInside_tokensOf v [] ts h (by simpa using hdepth)
  have hclose : closeInside valueDepth [] v ts = some (v, ts) := by simp [closeInside]
  simp only [readValue, hread, hclose]

theorem finds_readOptional_null {α : Type} (read : Reader UpdateError α) :
    Reader.Finds (readOptional read) (.scalar .null) none :=
  fun _ => rfl

theorem finds_readOptional {α : Type} {read : Reader UpdateError α} {v : Value} {a : α} (h : read.Finds v a)
    (hnull : v ≠ .scalar .null) : Reader.Finds (readOptional read) v (some a) := by
  intro ts
  have hfound := h ts
  -- The tokens of no other value start with `null`.
  have hword : ∀ rest, tokensOf v ++ ts ≠ .word .null :: rest := by
    intro rest heq
    cases v with
    | scalar s => cases s <;> simp_all [tokensOf, leafToken]
    | array xs => cases xs <;> simp [tokensOf] at heq
    | object ms => cases ms <;> simp [tokensOf] at heq
  unfold readOptional
  split
  · rename_i heq
    exact absurd heq (hword _)
  · simp [hfound, bind, Except.bind, pure, Except.pure]

theorem finds_readOnce {α : Type} {known : Draft → Option α} {keep : Draft → α → Draft}
    {read : Reader UpdateError α} {d : Draft} {v : Value} {a : α} (hknown : known d = none) (h : read.Finds v a) :
    Reader.Finds (readOnce known keep read d) v (keep d a) := by
  intro ts
  have hfound := h ts
  simp [readOnce, hknown, hfound, bind, Except.bind, pure, Except.pure]

/-! ## Operations -/

theorem gathers_value {d : Draft} {value : Option Value} (hd : d.value = none)
    (hvalue : ∀ v, value = some v → v.WellFormed ∧ v.depth ≤ valueDepth) :
    operationShape.Gathers d (value.toList.map fun v => ("value", v))
      { d with value := value.map Value.unlessNull } := by
  obtain ⟨verb, path, known, source⟩ := d
  obtain rfl : known = none := hd
  cases value with
  | none => exact .nil _
  | some v =>
    refine .cons rfl (finds_readOnce rfl ?_) (.nil _)
    by_cases hnull : v = .scalar .null
    · rw [hnull]
      exact finds_readOptional_null readValue
    · have hread := finds_readValue (hvalue v rfl).1 (hvalue v rfl).2
      rw [Value.unlessNull_of_ne hnull]
      exact finds_readOptional hread hnull

theorem gathers_source {d : Draft} {source : Option Pointer} (hd : d.source = none)
    (hsource : ∀ p, source = some p → p.Named) :
    operationShape.Gathers d (source.toList.map fun p => ("from", .ofString p.text))
      { d with source := source.map some } := by
  obtain ⟨verb, path, value, known⟩ := d
  obtain rfl : known = none := hd
  cases source with
  | none => exact .nil _
  | some p =>
    have hread := finds_readPointer (hsource p rfl)
    exact .cons rfl (finds_readOnce rfl (finds_readOptional hread nofun)) (.nil _)

/-- An operation is read from its tokens, but for a value of `null`. -/
theorem finds_readOperation (h : op.Printable) : Reader.Finds readOperation op.toValue op.withoutNull := by
  intro ts
  obtain ⟨verb, path, value, source⟩ := op
  have hverb := finds_readVerb verb
  have hpath := finds_readPointer h.path
  have hvalue : ∀ v, value = some v → v.WellFormed ∧ v.depth ≤ valueDepth :=
    fun v hv => ⟨h.wellFormed v hv, h.depth_le v hv⟩
  -- What is known of the operation grows member by member, in the order in which they are written.
  have hrequired : operationShape.Gathers {} [("op", .ofString verb.word), ("path", .ofString path.text)]
      ⟨some verb, some path, none, none⟩ :=
    .cons rfl (finds_readOnce rfl hverb) (.cons rfl (finds_readOnce rfl hpath) (.nil _))
  have hmembers := (hrequired.append (gathers_value rfl hvalue)).append (gathers_source rfl h.source)
  have hread := Shape.read_tokensOf hmembers ts
  have hjoin : (value.map Value.unlessNull).join = value.bind Value.unlessNull := by cases value <;> rfl
  have hjoin' : (source.map some).join = source := by cases source <;> rfl
  simp only [Operation.toValue, readOperation]
  rw [hread]
  simp [bind, Except.bind, pure, Except.pure, Operation.withoutNull, hjoin, hjoin']

theorem finds_readArray (h : ∀ op ∈ ops, op.Printable) :
    Reader.Finds (readArray malformed readOperation) (.array (ops.map Operation.toValue))
      (ops.map Operation.withoutNull) :=
  readArray_tokensOf fun op hop => finds_readOperation (h op hop)

/-! ## Documents -/

/-- The texts of a patch: on one line, and on many lines as in a report. -/
inductive WrittenAs (ops : List Operation) : String → Prop where
  | line : WrittenAs ops (render ops)
  | lines (level : Nat) : WrittenAs ops (prettyAt level (.array (ops.map Operation.toValue)))

theorem integral_toValue (h : op.Printable) : op.toValue.Integral := by
  obtain ⟨verb, path, value, source⟩ := op
  refine Value.integralMembers_iff.2 fun m hm => ?_
  have hm' : (m = ("op", .ofString verb.word) ∨ m = ("path", .ofString path.text)) ∨
      (∃ v, value = some v ∧ ("value", v) = m) ∨ ∃ p, source = some p ∧ ("from", Value.ofString p.text) = m := by
    simpa [or_assoc] using hm
  obtain (rfl | rfl) | ⟨v, hv, rfl⟩ | ⟨p, -, rfl⟩ := hm'
  · exact trivial
  · exact trivial
  · exact h.integral v hv
  · exact trivial

theorem tokens_of_writtenAs (h : ∀ op ∈ ops, op.Printable) (htext : WrittenAs ops text) :
    tokens text = tokensOf (.array (ops.map Operation.toValue)) := by
  have hintegral : (Value.array (ops.map Operation.toValue)).Integral := by
    refine Value.integralItems_iff.2 fun v hv => ?_
    obtain ⟨op, hop, rfl⟩ := List.mem_map.1 hv
    exact integral_toValue (h op hop)
  cases htext with
  | line => exact tokens_compact hintegral
  | lines level => exact tokens_prettyAt hintegral level

theorem parse_of_writtenAs (h : ∀ op ∈ ops, op.Printable) (htext : WrittenAs ops text) :
    parse text = .ok (ops.map Operation.withoutNull) := by
  have hread := finds_readArray h []
  rw [List.append_nil] at hread
  rw [parse, readDocument, tokens_of_writtenAs h htext, hread]
  rfl

/-- Operations are read back from their text, but for values of `null`. So they are the same just if no value
is `null`. -/
theorem parse_written (ops : List Operation) (h : ∀ op ∈ ops, op.Printable) (text : String)
    (htext : WrittenAs ops text) :
    parse text = .ok (ops.map Operation.withoutNull) ∧
    (parse text = .ok ops ↔ ∀ op ∈ ops, op.value ≠ some (.scalar .null)) := by
  have hparse := parse_of_writtenAs h htext
  refine ⟨hparse, ?_⟩
  have hsame : ops.map Operation.withoutNull = ops ↔ ∀ op ∈ ops, op.withoutNull = op := by
    have hid := List.map_inj_left (f := Operation.withoutNull) (g := id) (l := ops)
    rwa [List.map_id] at hid
  rw [hparse, Except.ok.injEq, hsame]
  exact forall₂_congr fun op _ => Operation.withoutNull_eq_iff

/-- A port with a slash in its name gets another speed, and a VLAN with a tilde in its name gets another one. -/
def markedNames : List Operation :=
  [⟨.replace, .ofNames ["PORT", "Ethernet0/1", "speed"], some (.ofString "40000"), none⟩,
    ⟨.move, .ofNames ["VLAN", "Vlan10"], none, some (.ofNames ["VLAN", "~10"])⟩]

theorem parse_written_markedNames : (∀ op ∈ markedNames, op.Printable) ∧
    WrittenAs markedNames (render markedNames) ∧ parse (render markedNames) = .ok markedNames := by
  have hprintable : ∀ op ∈ markedNames, op.Printable := by
    refine List.forall_mem_cons.2 ⟨.of_value (Pointer.named_ofNames _) trivial trivial (Nat.zero_le _),
      List.forall_mem_singleton.2 ⟨Pointer.named_ofNames _, ?_, nofun, nofun, nofun⟩⟩
    rintro p ⟨⟩
    exact Pointer.named_ofNames _
  have hvalues : ∀ op ∈ markedNames, op.value ≠ some (.scalar .null) :=
    List.forall_mem_cons.2 ⟨nofun, List.forall_mem_singleton.2 nofun⟩
  exact ⟨hprintable, .line, ((parse_written markedNames hprintable _ .line).2).2 hvalues⟩

/-- An operation that adds `null`. -/
def addNull : Operation := ⟨.add, .ofNames ["VLAN"], some (.scalar .null), none⟩

/-- Not every patch is read back from its text: a value of `null` is lost. -/
theorem exists_unreadable :
    ¬ ∀ ops text, (∀ op ∈ ops, op.Printable) → WrittenAs ops text → parse text = .ok ops := by
  intro h
  have hprintable : ∀ op ∈ [addNull], op.Printable :=
    List.forall_mem_singleton.2 (.of_value (Pointer.named_ofNames _) trivial trivial (Nat.zero_le _))
  have hread := parse_of_writtenAs hprintable .line
  rw [h [addNull] _ hprintable .line] at hread
  cases hread

/-! ## Plans -/

/-- A move to a target that can be read is an operation that can be written. -/
theorem printable_of_mem_diff {current target : Value} (hcurrent : current.WellFormed)
    (htarget : target.WellFormed) (hintegral : target.Integral) (hdepth : target.depth ≤ valueDepth) {m : Move}
    (hm : m ∈ diff current target) : m.toOperation.Printable := by
  induction current, target using Value.induct₂ generalizing m with
  | objects ms ns ih =>
    obtain ⟨hms, hvs⟩ := Value.wellFormed_object_iff.1 hcurrent
    obtain ⟨hns, hws⟩ := Value.wellFormed_object_iff.1 htarget
    obtain ⟨key, m', hm', rfl⟩ := (mem_diff_object hms hns).1 hm
    have hmember : ∀ b, Dictionary.get? ns key = some b → b.Integral ∧ b.depth ≤ valueDepth := by
      intro b hb
      have hlt := Value.depth_lt_of_get? hb
      exact ⟨Value.integralMembers_iff.1 hintegral _ (Dictionary.mem_of_get? hb), by omega⟩
    have hunder : m'.toOperation.Printable → (m'.under key).toOperation.Printable := fun h =>
      ⟨List.forall_mem_cons.2 ⟨⟨key, rfl⟩, h.path⟩, nofun, h.wellFormed, h.integral, h.depth_le⟩
    refine hunder ?_
    obtain ⟨b, -, hb, rfl⟩ | ⟨a, -, -, rfl⟩ | ⟨a, b, ha, hb, hm'⟩ := mem_diffSlot_cases hm'
    · exact .of_value (List.forall_mem_nil _) (hws key b hb) (hmember b hb).1 (hmember b hb).2
    · exact ⟨List.forall_mem_nil _, nofun, nofun, nofun, nofun⟩
    · exact ih key a b ha hb (hvs key a ha) (hws key b hb) (hmember b hb).1 (hmember b hb).2 hm'
  | other v w hother =>
    rw [diff_of_not_objects hother] at hm
    split at hm
    · cases hm
    · obtain rfl := List.mem_singleton.1 hm
      exact .of_value (List.forall_mem_nil _) htarget hintegral hdepth

/-- The plan for a target is read back from its text, but for values of `null`. -/
theorem parse_plan {current target : Value} (hcurrent : current.WellFormed) (htarget : target.WellFormed)
    (hintegral : target.Integral) (hdepth : target.depth ≤ valueDepth) {moves : List Move}
    (hmoves : ∀ m ∈ moves, m ∈ diff current target) (htext : WrittenAs (moves.map Move.toOperation) text) :
    parse text = .ok (moves.map fun m => m.toOperation.withoutNull) := by
  have hprintable : ∀ op ∈ moves.map Move.toOperation, op.Printable := by
    intro op hop
    obtain ⟨m, hm, rfl⟩ := List.mem_map.1 hop
    exact printable_of_mem_diff hcurrent htarget hintegral hdepth (hmoves m hm)
  rw [parse_of_writtenAs hprintable htext, List.map_map]
  rfl

end Patch

end ConfigUpdate
