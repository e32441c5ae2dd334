import ConfigUpdate.Proofs.Difference

/-!
# What a blend has at a place

At and below the place of a move of the difference a blend has what the current tree has there, or what
the target has there, according to whether the place is taken: `memberAt_blend_at`. Everywhere
else all blends are alike: they have what the current tree has, unless that is an object, and an object
then: `kept_memberAt_blend`.
-/

namespace ConfigUpdate

namespace Value

/-- The value at the end of a path of names through objects. -/
def memberAt (v : Value) : List String → Option Value
  | [] => some v
  | k :: ks => (v.get? k).bind fun c => c.memberAt ks

/-- The second value is the first one, or both are objects. -/
def Kept (a c : Option Value) : Prop :=
  c = a ∨ ∃ ms ns, a = some (object ms) ∧ c = some (object ns)

theorem Kept.symm {a c : Option Value} (h : Kept a c) : Kept c a := by
  obtain rfl | ⟨ms, ns, rfl, rfl⟩ := h
  · exact .inl rfl
  · exact .inr ⟨ns, ms, rfl, rfl⟩

theorem Kept.trans {a b c : Option Value} (h : Kept a b) (h' : Kept b c) : Kept a c := by
  obtain rfl | ⟨ms, ns, rfl, rfl⟩ := h
  · exact h'
  · obtain rfl | ⟨ms', ns', -, rfl⟩ := h'
    · exact .inr ⟨ms, ns, rfl, rfl⟩
    · exact .inr ⟨ms, ns', rfl, rfl⟩

theorem Kept.isSome_eq {a c : Option Value} (h : Kept a c) : c.isSome = a.isSome := by
  obtain rfl | ⟨ms, ns, rfl, rfl⟩ := h <;> rfl

theorem get?_eq_none_of_not_object {v : Value} (h : v.isObject = false) (key : String) :
    v.get? key = none := by
  cases v <;> first | rfl | cases h

/-- Equal trees have equal values at every path. -/
theorem sameOption_memberAt {v w : Value} (h : v.same w = true) (ks : List String) :
    SameOption (v.memberAt ks) (w.memberAt ks) := by
  induction ks generalizing v w with
  | nil => exact h
  | cons k ks ih =>
    have hslot : SameOption (v.get? k) (w.get? k) := by
      cases v <;> cases w <;> first | trivial | exact sameOption_get? h k
    cases hv : v.get? k with
    | none =>
      cases hw : w.get? k with
      | none => simp [memberAt, hv, hw, SameOption]
      | some d => simp [hv, hw, SameOption] at hslot
    | some c =>
      cases hw : w.get? k with
      | none => simp [hv, hw, SameOption] at hslot
      | some d =>
        rw [hv, hw] at hslot
        simpa [memberAt, hv, hw] using ih hslot

end Value

section Places

variable {v w : Value} {ks : List String}

theorem prefix_ofNames_cons {key : String} {p : Pointer} :
    Step.key key :: p <+: Pointer.ofNames ks ↔
      ∃ ks', ks = key :: ks' ∧ p <+: Pointer.ofNames ks' := by
  cases ks with
  | nil => simp [Pointer.ofNames]
  | cons k ks =>
    simp only [Pointer.ofNames, List.map_cons, List.cons_prefix_cons, Step.key.injEq, List.cons.injEq]
    constructor
    · rintro ⟨rfl, hp⟩
      exact ⟨ks, ⟨rfl, rfl⟩, hp⟩
    · rintro ⟨ks', ⟨rfl, rfl⟩, hp⟩
      exact ⟨rfl, hp⟩

theorem prefix_entry_iff {p : Pointer} {table key : String} :
    p <+: Pointer.ofNames [table, key] ↔ p = [] ∨ p = [.key table] ∨ p = [.key table, .key key] := by
  simp only [Pointer.ofNames, List.map_cons, List.map_nil, List.prefix_cons_iff, List.prefix_nil]
  constructor
  · rintro (h | ⟨t, rfl, rfl | ⟨u, rfl, rfl⟩⟩)
    · exact .inl h
    · exact .inr (.inl rfl)
    · exact .inr (.inr rfl)
  · rintro (h | rfl | rfl)
    · exact .inl h
    · exact .inr ⟨[], rfl, .inl rfl⟩
    · exact .inr ⟨_, rfl, .inr ⟨[], rfl, rfl⟩⟩

/-- A move that is made in more than one entry is made in all entries of a table. -/
theorem table_or_entry {p : Pointer} (hp : p ≠ []) {table key : String}
    (h : p <+: Pointer.ofNames [table, key]) :
    p = [.key table] ∨ ∀ other k, p <+: Pointer.ofNames [other, k] → other = table ∧ k = key := by
  rcases prefix_entry_iff.1 h with rfl | rfl | rfl
  · exact absurd rfl hp
  · exact .inl rfl
  · refine .inr fun other k hother => ?_
    rcases prefix_entry_iff.1 hother with heq | heq | heq <;> simp at heq
    exact ⟨heq.1.symm, heq.2.symm⟩

/-- A move below the root is made in one table. -/
theorem table_eq_of_path {p : Pointer} (hp : p ≠ []) {table other : String} {ks ks' : List String}
    (h : p <+: Pointer.ofNames (table :: ks)) (h' : p <+: Pointer.ofNames (other :: ks')) :
    table = other := by
  cases p with
  | nil => exact absurd rfl hp
  | cons s p =>
    obtain ⟨rfl, -⟩ := List.cons_prefix_cons.1 h
    obtain ⟨hkey, -⟩ := List.cons_prefix_cons.1 h'
    exact Step.key.inj hkey

/-- At and below the place of a move a blend is the one tree or the other. -/
theorem memberAt_blend_at {taken : Pointer → Bool} (hv : v.WellFormed) (hw : w.WellFormed)
    {m : Move} (hm : m ∈ diff v w) (hp : m.path <+: Pointer.ofNames ks) :
    (Value.blend taken v w).memberAt ks
      = if taken m.path then w.memberAt ks else v.memberAt ks := by
  induction v, w using Value.induct₂ generalizing taken m ks with
  | objects ms ns ih =>
    obtain ⟨hms, hvs⟩ := Value.wellFormed_object_iff.1 hv
    obtain ⟨hns, hws⟩ := Value.wellFormed_object_iff.1 hw
    obtain ⟨key, m', hm', rfl⟩ := (mem_diff_object hms hns).1 hm
    obtain ⟨ks, rfl, hp'⟩ := prefix_ofNames_cons.1 hp
    rw [Value.blend_object]
    simp only [Value.memberAt, Value.get?, Value.get?_blendObject]
    cases ha : Dictionary.get? ms key with
    | some a =>
      cases hb : Dictionary.get? ns key with
      | some b =>
        rw [ha, hb] at hm'
        exact ih key a b ha hb (hvs key a ha) (hws key b hb) hm' hp'
      | none =>
        rw [ha, hb] at hm'
        obtain rfl := List.mem_singleton.1 hm'
        cases ht : taken [.key key] <;>
          simp [Value.blendSlot, Value.takenBelow, Move.under, Move.remove, ht]
    | none =>
      cases hb : Dictionary.get? ns key with
      | some b =>
        rw [ha, hb] at hm'
        obtain rfl := List.mem_singleton.1 hm'
        cases ht : taken [.key key] <;>
          simp [Value.blendSlot, Value.takenBelow, Move.under, Move.add, ht]
      | none =>
        rw [ha, hb] at hm'
        cases hm'
  | other v w h =>
    rw [diff_of_not_objects h] at hm
    split at hm
    · cases hm
    · rename_i hne
      obtain rfl := List.mem_singleton.1 hm
      rw [Value.blend_of_not_objects h, if_neg hne]
      cases ht : taken [] <;> simp [Move.replace, ht]

/-- Where no move is made at or above, blends keep what the current tree has. -/
theorem kept_memberAt_blend {taken : Pointer → Bool} (hv : v.WellFormed) (hw : w.WellFormed)
    (h : ∀ m ∈ diff v w, ¬ m.path <+: Pointer.ofNames ks) :
    Value.Kept (v.memberAt ks) ((Value.blend taken v w).memberAt ks) := by
  induction v, w using Value.induct₂ generalizing taken ks with
  | objects ms ns ih =>
    obtain ⟨hms, hvs⟩ := Value.wellFormed_object_iff.1 hv
    obtain ⟨hns, hws⟩ := Value.wellFormed_object_iff.1 hw
    rw [Value.blend_object]
    cases ks with
    | nil => exact .inr ⟨ms, _, rfl, rfl⟩
    | cons key ks =>
      have hbelow : ∀ m' ∈ diffSlot (Dictionary.get? ms key) (Dictionary.get? ns key),
          ¬ m'.path <+: Pointer.ofNames ks := by
        intro m' hm' hp
        exact h (m'.under key) ((mem_diff_object hms hns).2 ⟨key, m', hm', rfl⟩)
          (prefix_ofNames_cons.2 ⟨ks, rfl, hp⟩)
      simp only [Value.memberAt, Value.get?, Value.get?_blendObject]
      cases ha : Dictionary.get? ms key with
      | some a =>
        cases hb : Dictionary.get? ns key with
        | some b =>
          rw [ha, hb] at hbelow
          exact ih key a b ha hb (hvs key a ha) (hws key b hb) hbelow
        | none =>
          rw [ha, hb] at hbelow
          exact absurd List.nil_prefix (hbelow _ List.mem_cons_self)
      | none =>
        cases hb : Dictionary.get? ns key with
        | some b =>
          rw [ha, hb] at hbelow
          exact absurd List.nil_prefix (hbelow _ List.mem_cons_self)
        | none => exact .inl (by simp [Value.blendSlot])
  | other v w ho =>
    rw [diff_of_not_objects ho] at h
    rw [Value.blend_of_not_objects ho]
    split at h
    · rename_i hsame
      rw [if_pos hsame]
      exact .inl rfl
    · exact absurd List.nil_prefix (h _ List.mem_cons_self)

/-- Where no move is made at or above, the last tree keeps what the current one has. -/
theorem kept_memberAt_settled (hv : v.WellFormed) (hw : w.WellFormed)
    (h : ∀ m ∈ diff v w, ¬ m.path <+: Pointer.ofNames ks) :
    Value.Kept (v.memberAt ks) ((v.settled w).memberAt ks) :=
  kept_memberAt_blend hv hw h

/-- Where no move is made at or above, all blends keep what they have. -/
theorem kept_blend_blend {taken taken' : Pointer → Bool} (hv : v.WellFormed) (hw : w.WellFormed)
    (h : ∀ m ∈ diff v w, ¬ m.path <+: Pointer.ofNames ks) :
    Value.Kept ((Value.blend taken v w).memberAt ks) ((Value.blend taken' v w).memberAt ks) :=
  (kept_memberAt_blend hv hw h).symm.trans (kept_memberAt_blend hv hw h)

/-- Where the trees are equal no move is made at or above. -/
theorem not_prefix_of_same (hv : v.WellFormed) (hw : w.WellFormed) {a b : Value}
    (ha : v.memberAt ks = some a) (hb : w.memberAt ks = some b) (hab : a.same b = true) :
    ∀ m ∈ diff v w, ¬ m.path <+: Pointer.ofNames ks := by
  induction v, w using Value.induct₂ generalizing ks with
  | objects ms ns ih =>
    obtain ⟨hms, hvs⟩ := Value.wellFormed_object_iff.1 hv
    obtain ⟨hns, hws⟩ := Value.wellFormed_object_iff.1 hw
    intro m hm hp
    obtain ⟨key, m', hm', rfl⟩ := (mem_diff_object hms hns).1 hm
    obtain ⟨ks, rfl, hp'⟩ := prefix_ofNames_cons.1 hp
    simp only [Value.memberAt, Value.get?] at ha hb
    obtain ⟨c, hc, hac⟩ := Option.bind_eq_some_iff.1 ha
    obtain ⟨d, hd, hbd⟩ := Option.bind_eq_some_iff.1 hb
    rw [hc, hd] at hm'
    exact ih key c d hc hd (hvs key c hc) (hws key d hd) hac hbd m' hm' hp'
  | other v w ho =>
    intro m hm hp
    rw [diff_of_not_objects ho] at hm
    split at hm
    · cases hm
    · rename_i hne
      cases ks with
      | nil =>
        cases ha
        cases hb
        exact hne hab
      | cons key ks =>
        rcases Bool.and_eq_false_iff.1 ho with hvo | hwo
        · simp [Value.memberAt, Value.get?_eq_none_of_not_object hvo] at ha
        · simp [Value.memberAt, Value.get?_eq_none_of_not_object hwo] at hb

end Places

end ConfigUpdate
