import ConfigUpdate.Proofs.DiffRun
import ConfigUpdate.Proofs.References

/-!
# What one more move of a difference changes

A move that is made after others of its difference brings, at and below its place, what the tree has in
the end, and elsewhere changes nothing that the rules about references ask for: the entries and the
names in their fields.
-/

namespace ConfigUpdate

section Blend

open ReferenceRules Value

variable {current target : Value} (hc : current.WellFormed) (ht : target.WellFormed)
variable {taken : Pointer → Bool} {m : Move} (hm : m ∈ diff current target)

include hc ht

/-- A blend has the last value, or a move that is still to come is made there or above. -/
theorem kept_or_pending (taken : Pointer → Bool) (ks : List String) :
    Kept ((blend taken current target).memberAt ks)
        ((settled current target).memberAt ks) ∨
      ∃ m ∈ diff current target, taken m.path = false ∧ m.path <+: Pointer.ofNames ks := by
  by_cases h : ∃ m ∈ diff current target, m.path <+: Pointer.ofNames ks
  · obtain ⟨m, hm, hp⟩ := h
    cases htaken : taken m.path with
    | false => exact .inr ⟨m, hm, htaken, hp⟩
    | true =>
      left
      rw [memberAt_blend_at hc ht hm hp, memberAt_blend_at hc ht hm hp, htaken]
      exact .inl rfl
  · have hfree : ∀ m ∈ diff current target, ¬ m.path <+: Pointer.ofNames ks :=
      fun m hm hp => h ⟨m, hm, hp⟩
    exact .inl (kept_blend_blend hc ht hfree)

include hm

/-- At and below its place a move brings the last value. -/
theorem memberAt_withPlace {ks : List String} (hp : m.path <+: Pointer.ofNames ks) :
    (blend (withPlace taken m.path) current target).memberAt ks
      = (settled current target).memberAt ks := by
  have hplace : withPlace taken m.path m.path = true := by simp [withPlace]
  rw [memberAt_blend_at hc ht hm hp, memberAt_blend_at hc ht hm hp, hplace]

omit hm in
/-- Elsewhere a move changes nothing, but for what is below an object. -/
theorem kept_withPlace {ks : List String} (hp : ¬ m.path <+: Pointer.ofNames ks) :
    Kept ((blend taken current target).memberAt ks)
      ((blend (withPlace taken m.path) current target).memberAt ks) := by
  by_cases h : ∃ m' ∈ diff current target, m'.path <+: Pointer.ofNames ks
  · obtain ⟨m', hm', hp'⟩ := h
    have hne : m'.path ≠ m.path := fun heq => hp (heq ▸ hp')
    have hplace : withPlace taken m.path m'.path = taken m'.path := by simp [withPlace, hne]
    rw [memberAt_blend_at hc ht hm' hp', memberAt_blend_at hc ht hm' hp', hplace]
    exact .inl rfl
  · have hfree : ∀ m ∈ diff current target, ¬ m.path <+: Pointer.ofNames ks :=
      fun m hm hp => h ⟨m, hm, hp⟩
    exact kept_blend_blend hc ht hfree

/-! ## Entries and names -/

theorem hasEntry_withPlace {table key : String} (hp : m.path <+: Pointer.ofNames [table, key]) :
    hasEntry (blend (withPlace taken m.path) current target) table key
      = hasEntry (settled current target) table key := by
  rw [hasEntry_eq_isSome, hasEntry_eq_isSome, memberAt_withPlace hc ht hm hp]

omit hm in
theorem hasEntry_withPlace_elsewhere {table key : String}
    (hp : ¬ m.path <+: Pointer.ofNames [table, key]) :
    hasEntry (blend (withPlace taken m.path) current target) table key
      = hasEntry (blend taken current target) table key := by
  rw [hasEntry_eq_isSome, hasEntry_eq_isSome]
  exact (kept_withPlace hc ht hp).isSome_eq

theorem namesAt_withPlace {rule : ReferenceRule} {key : String}
    (hp : m.path <+: Pointer.ofNames [rule.table, key, rule.field]) :
    namesAt (blend (withPlace taken m.path) current target) rule key
      = namesAt (settled current target) rule key := by
  rw [namesAt, namesAt, memberAt_withPlace hc ht hm hp]

omit hc ht hm in
/-- Objects name no entries. -/
theorem namesAt_eq_of_kept {rule : ReferenceRule} {key : String} {v w : Value}
    (h : Kept (v.memberAt [rule.table, key, rule.field]) (w.memberAt [rule.table, key, rule.field])) :
    namesAt w rule key = namesAt v rule key := by
  unfold namesAt
  obtain heq | ⟨ms, ns, hv, hw⟩ := h
  · rw [heq]
  · rw [hv, hw]
    simp [namesIn]

omit hm in
theorem namesAt_withPlace_elsewhere {rule : ReferenceRule} {key : String}
    (hp : ¬ m.path <+: Pointer.ofNames [rule.table, key, rule.field]) :
    namesAt (blend (withPlace taken m.path) current target) rule key
      = namesAt (blend taken current target) rule key :=
  namesAt_eq_of_kept (kept_withPlace hc ht hp)

/-! ## Moves of tables and entries -/

/-- A move of the whole configuration is the last one. -/
theorem blend_withPlace_root (hp : m.path = []) :
    blend (withPlace taken m.path) current target = settled current target := by
  have hroot : (blend (withPlace taken m.path) current target).memberAt []
      = (settled current target).memberAt [] :=
    memberAt_withPlace hc ht hm (by rw [hp]; exact List.nil_prefix)
  exact Option.some.inj hroot

omit hm in
/-- Beside a move of the whole configuration there is no other one. -/
theorem path_eq_nil_of_root {m' : Move} (hm' : m' ∈ diff current target) (hp : m'.path = [])
    (hm : m ∈ diff current target) : m.path = [] := by
  rw [diff_of_not_objects (not_objects_of_mem_diff_root hc ht hm' hp)] at hm
  split at hm
  · cases hm
  · rw [List.mem_singleton.1 hm]
    rfl

/-- A table is moved as a whole where the trees do not both have one. -/
theorem hasEntry_eq_false_of_table {table : String} (hp : m.path = [.key table]) :
    (∀ key, hasEntry current table key = false) ∨
      ∀ key, hasEntry (settled current target) table key = false := by
  have hlast : ∀ key, hasEntry (settled current target) table key
      = hasEntry target table key := by
    intro key
    have hbelow : m.path <+: Pointer.ofNames [table, key] := by
      rw [hp]
      exact ⟨[.key key], rfl⟩
    rw [hasEntry_eq_isSome, hasEntry_eq_isSome, memberAt_blend_at hc ht hm hbelow]
    rfl
  simp only [hlast]
  suffices h : (∀ t, current.get? table = some t → t.isObject = false) ∨
      ∀ t, target.get? table = some t → t.isObject = false from
    h.imp hasEntry_eq_false_of_not_table hasEntry_eq_false_of_not_table
  cases ho : current.isObject && target.isObject with
  | false =>
    rw [diff_of_not_objects ho] at hm
    split at hm
    · cases hm
    · rw [List.mem_singleton.1 hm] at hp
      cases hp
  | true =>
    obtain ⟨hco, hto⟩ := Bool.and_eq_true_iff.1 ho
    obtain ⟨ms, rfl⟩ := eq_object_of_isObject hco
    obtain ⟨ns, rfl⟩ := eq_object_of_isObject hto
    obtain ⟨hms, hvs⟩ := wellFormed_object_iff.1 hc
    obtain ⟨hns, hws⟩ := wellFormed_object_iff.1 ht
    obtain ⟨key, m', hm', rfl⟩ := (mem_diff_object hms hns).1 hm
    obtain ⟨hkey, hroot⟩ := List.cons.inj hp
    obtain rfl := Step.key.inj hkey
    simp only [Value.get?]
    cases ha : Dictionary.get? ms key with
    | none => exact .inl fun t h => by cases h
    | some a =>
      cases hb : Dictionary.get? ns key with
      | none => exact .inr fun t h => by cases h
      | some b =>
        rw [ha, hb] at hm'
        have hnot := not_objects_of_mem_diff_root (hvs key a ha) (hws key b hb) hm' hroot
        refine (Bool.and_eq_false_iff.1 hnot).imp (fun hao t h => ?_) fun hbo t h => ?_
        · exact Option.some.inj h ▸ hao
        · exact Option.some.inj h ▸ hbo

end Blend

end ConfigUpdate
