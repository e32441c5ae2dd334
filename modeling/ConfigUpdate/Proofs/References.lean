import ConfigUpdate.Plan.Oracle
import ConfigUpdate.Proofs.BlendPlaces
import ConfigUpdate.Proofs.KeyAncestry
import ConfigUpdate.Proofs.ObjectStep
import Mathlib.Logic.Relation

/-!
# Trees that the rules about references accept

The oracle of the rules reads two things off a tree: which entries there are (`hasEntry`) and which
entries the fields name (`namesAt`). `ReferenceRules.Accepts` says in these terms what it asks for, and
`ReferenceRules.oracle_eq_ok_iff` that it is what the oracle decides. Equal fields name the same entries, but
for zeros: `ReferenceRules.mem_namesIn_of_same`.
-/

namespace ConfigUpdate

/-- The key of the entry to which an entry belongs. -/
def EntryKey.baseOf (key : String) : String :=
  (ofText key).base

/-- A base is its own base. -/
theorem EntryKey.baseOf_baseOf (key : String) : baseOf (baseOf key) = baseOf key := by
  rw [baseOf, baseOf, ofText_base]
  rfl

/-- Whether an entry needs one in the parent table. -/
def ParentRule.needsParent (rule : ParentRule) (key : String) : Bool :=
  !(rule.compoundOnly && !(EntryKey.ofText key).isCompound)

namespace ReferenceRules

/-- The entries that the field of a rule names in an entry. -/
def namesAt (tree : Value) (rule : ReferenceRule) (key : String) : List String :=
  ((tree.memberAt [rule.table, key, rule.field]).map namesIn).getD []

/-- A field that is the text of a zero names the zero. -/
theorem eq_of_mem_namesIn_zero {s : Scalar} (hs : s.fieldText = "0.0" ∨ s.fieldText = "-0.0")
    {name : String} (h : name ∈ namesIn (.scalar s)) : name = "0.0" ∨ name = "-0.0" := by
  have hzeros : namesIn (.scalar (.string "0.0")) = ["0.0"] ∧
      namesIn (.scalar (.string "-0.0")) = ["-0.0"] := by
    decide
  rw [namesIn] at h
  rcases hs with hs | hs <;> rw [hs] at h
  · exact .inl (List.mem_singleton.1 (hzeros.1 ▸ h))
  · exact .inr (List.mem_singleton.1 (hzeros.2 ▸ h))

mutual

/-- Equal fields name the same, but for zeros, which can be written in two ways. -/
theorem mem_namesIn_of_same : ∀ {v w : Value}, v.same w = true → ∀ name ∈ namesIn v,
    name ∈ namesIn w ∨ name = "0.0" ∨ name = "-0.0"
  | .scalar s, .scalar t, h, name, hname => by
    rcases Scalar.fieldText_of_same h with heq | hzero
    · rw [namesIn, heq] at hname
      exact .inl hname
    · exact .inr (eq_of_mem_namesIn_zero hzero hname)
  | .array _, .array _, h, name, hname => mem_namesInItems_of_same h name hname
  | .object _, _, _, name, hname => by simp [namesIn] at hname

theorem mem_namesInItems_of_same : ∀ {xs ys : List Value}, Value.sameItems xs ys = true →
    ∀ name ∈ namesInItems xs, name ∈ namesInItems ys ∨ name = "0.0" ∨ name = "-0.0"
  | [], _, _, name, hname => by simp [namesInItems] at hname
  | x :: xs, y :: ys, h, name, hname => by
    obtain ⟨hxy, hrest⟩ := Value.sameItems_cons.1 h
    rw [namesInItems, List.mem_append] at hname ⊢
    rcases hname with hname | hname
    · exact (mem_namesIn_of_same hxy name hname).imp_left .inl
    · exact (mem_namesInItems_of_same hrest name hname).imp_left .inr

end

/-- All entries that are needed or named are there. -/
structure Accepts (rules : ReferenceRules) (tree : Value) : Prop where
  parents : ∀ rule ∈ rules.parents, ∀ key, hasEntry tree rule.table key = true →
    rule.needsParent key = true → hasEntry tree rule.parentTable (EntryKey.baseOf key) = true
  references : ∀ rule ∈ rules.references, ∀ key, ∀ name ∈ namesAt tree rule key,
    hasEntry tree rule.targetTable name = true

/-! ## The oracle -/

theorem checkParents_eq_ok_iff {tree : Value} {rule : ParentRule} {keys : List String} :
    checkParents tree rule keys = .ok () ↔ ∀ key ∈ keys, rule.needsParent key = true →
      hasEntry tree rule.parentTable (EntryKey.baseOf key) = true := by
  induction keys with
  | nil => simp [checkParents]
  | cons key keys ih =>
    rw [List.forall_mem_cons, ← ih]
    simp only [checkParents, ParentRule.needsParent, EntryKey.baseOf]
    cases rule.compoundOnly && !(EntryKey.ofText key).isCompound <;>
      cases hasEntry tree rule.parentTable (EntryKey.ofText key).base <;> simp

theorem checkNames_eq_ok_iff {tree : Value} {rule : ReferenceRule} {key : String}
    {names : List String} :
    checkNames tree rule key names = .ok () ↔
      ∀ name ∈ names, hasEntry tree rule.targetTable name = true := by
  induction names with
  | nil => simp [checkNames]
  | cons name names ih =>
    rw [List.forall_mem_cons, ← ih]
    simp only [checkNames]
    cases hasEntry tree rule.targetTable name <;> simp

theorem checkReferences_eq_ok_iff {tree : Value} {rule : ReferenceRule}
    {es : List (String × Value)} :
    checkReferences tree rule es = .ok () ↔ ∀ e ∈ es, ∀ value, e.2.get? rule.field = some value →
      ∀ name ∈ namesIn value, hasEntry tree rule.targetTable name = true := by
  induction es with
  | nil => simp [checkReferences]
  | cons e es ih =>
    obtain ⟨key, entry⟩ := e
    rw [List.forall_mem_cons, ← ih]
    simp only [checkReferences]
    cases hfield : entry.get? rule.field with
    | none => simp [bind_eq_ok_iff]
    | some value => simp [bind_eq_ok_iff, checkNames_eq_ok_iff]

theorem hasEntry_eq_isSome (tree : Value) (table key : String) :
    hasEntry tree table key = (tree.memberAt [table, key]).isSome := by
  have hmember : tree.memberAt [table, key] = (tree.get? table).bind fun t => t.get? key := by
    simp [Value.memberAt]
  rw [hmember, hasEntry, entries, Dictionary.contains]
  cases tree.get? table with
  | none => rfl
  | some t => cases t <;> rfl

theorem hasEntry_eq_false_of_not_table {tree : Value} {table : String}
    (h : ∀ t, tree.get? table = some t → t.isObject = false) (key : String) :
    hasEntry tree table key = false := by
  unfold hasEntry entries
  cases ht : tree.get? table with
  | none => rfl
  | some t =>
    have hobject := h t ht
    cases t with
    | object es => cases hobject
    | scalar s => rfl
    | array xs => rfl

/-- The look-ups of entries, where their keys ascend. -/
theorem mem_entries_iff {tree : Value} (h : tree.WellFormed) {table key : String} {entry : Value} :
    (key, entry) ∈ entries tree table ↔ tree.memberAt [table, key] = some entry := by
  have hmember : tree.memberAt [table, key] = (tree.get? table).bind fun t => t.get? key := by
    simp [Value.memberAt]
  rw [hmember, entries]
  cases ht : tree.get? table with
  | none => simp
  | some t =>
    cases t with
    | scalar s => simp [Value.members?, Value.get?]
    | array xs => simp [Value.members?, Value.get?]
    | object es =>
      have hes : (Value.object es).WellFormed := by
        cases tree with
        | object ts => exact (Value.wellFormed_object_iff.1 h).2 table _ ht
        | scalar s => cases ht
        | array xs => cases ht
      simpa [Value.members?, Value.get?] using (Dictionary.get?_eq_some_iff hes.1).symm

theorem checkReferences_entries_iff {tree : Value} (h : tree.WellFormed) {rule : ReferenceRule} :
    checkReferences tree rule (entries tree rule.table) = .ok () ↔
      ∀ key, ∀ name ∈ namesAt tree rule key, hasEntry tree rule.targetTable name = true := by
  rw [checkReferences_eq_ok_iff]
  have hfield : ∀ key, tree.memberAt [rule.table, key, rule.field]
      = (tree.memberAt [rule.table, key]).bind fun entry => entry.get? rule.field := by
    intro key
    simp only [Value.memberAt]
    cases tree.get? rule.table with
    | none => rfl
    | some t => cases t.get? key <;> simp
  constructor
  · intro hall key name hname
    unfold namesAt at hname
    rw [hfield] at hname
    cases hentry : tree.memberAt [rule.table, key] with
    | none => simp [hentry] at hname
    | some entry =>
      cases hvalue : entry.get? rule.field with
      | none => simp [hentry, hvalue] at hname
      | some value =>
        simp only [hentry, Option.bind_some, hvalue, Option.map_some, Option.getD_some] at hname
        exact hall (key, entry) ((mem_entries_iff h).2 hentry) value hvalue name hname
  · rintro hall ⟨key, entry⟩ he value hvalue name hname
    refine hall key name ?_
    unfold namesAt
    rw [hfield, (mem_entries_iff h).1 he]
    simpa [hvalue] using hname

/-- What the oracle decides. -/
theorem oracle_eq_ok_iff {rules : ReferenceRules} {tree : Value} (h : tree.WellFormed) :
    rules.oracle tree = .ok () ↔ rules.Accepts tree := by
  unfold oracle
  rw [bind_eq_ok_iff]
  have hparents : (rules.parents.forM fun rule => checkParents tree rule (entries tree rule.table).keys)
      = .ok () ↔ ∀ rule ∈ rules.parents, ∀ key, hasEntry tree rule.table key = true →
        rule.needsParent key = true →
          hasEntry tree rule.parentTable (EntryKey.baseOf key) = true := by
    rw [forM_eq_ok_iff]
    refine forall₂_congr fun rule _ => ?_
    rw [checkParents_eq_ok_iff]
    exact forall_congr' fun key => by rw [Dictionary.mem_keys_iff]; rfl
  have hreferences : (rules.references.forM fun rule =>
      checkReferences tree rule (entries tree rule.table)) = .ok () ↔
        ∀ rule ∈ rules.references, ∀ key, ∀ name ∈ namesAt tree rule key,
          hasEntry tree rule.targetTable name = true := by
    rw [forM_eq_ok_iff]
    exact forall₂_congr fun rule _ => checkReferences_entries_iff h
  exact ⟨fun hok => ⟨hparents.1 hok.1, hreferences.1 hok.2⟩,
    fun hok => ⟨hparents.2 hok.parents, hreferences.2 hok.references⟩⟩

end ReferenceRules

end ConfigUpdate
