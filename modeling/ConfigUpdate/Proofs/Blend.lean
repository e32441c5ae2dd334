import ConfigUpdate.Diff
import ConfigUpdate.Proofs.ValueEquality

/-!
# Trees between two configurations

After some of the moves of a difference the tree is neither the current configuration nor the target:
at the places of those moves it is the target, everywhere else the current configuration. `Value.blend`
is this tree for any choice of places, whatever the order of the moves. Differences and blends of two
objects are read member by member, through `mem_diff_object` and `Value.get?_blendObject`.
-/

namespace ConfigUpdate

namespace Value

/-! ## Induction on the members of two trees -/

theorem sizeOf_get?_lt {ms : List (String × Value)} {key : String} {v : Value}
    (h : Dictionary.get? ms key = some v) : sizeOf v < sizeOf (object ms) := by
  have hmem := List.sizeOf_lt_of_mem (Dictionary.mem_of_get? h)
  simp only [Prod.mk.sizeOf_spec, object.sizeOf_spec] at hmem ⊢
  omega

/-- Two trees are compared member by member as long as both are objects. -/
theorem induct₂ {motive : Value → Value → Prop}
    (objects : ∀ ms ns, (∀ key v w, Dictionary.get? ms key = some v →
      Dictionary.get? ns key = some w → motive v w) → motive (object ms) (object ns))
    (other : ∀ v w, (v.isObject && w.isObject) = false → motive v w) (v w : Value) : motive v w := by
  cases v with
  | object ms =>
    cases w with
    | object ns => exact objects ms ns fun key v w hv hw => induct₂ objects other v w
    | scalar s => exact other _ _ rfl
    | array xs => exact other _ _ rfl
  | scalar s => exact other _ _ rfl
  | array xs => exact other _ _ rfl
termination_by sizeOf v
decreasing_by exact sizeOf_get?_lt hv

/-! ## Blends -/

/-- The places below a member. -/
def takenBelow (taken : Pointer → Bool) (key : String) : Pointer → Bool :=
  fun p => taken (.key key :: p)

/-- The members with those of `ns` that `ms` does not have and whose places are taken. -/
def addMembers (taken : Pointer → Bool) (ms ns ds : List (String × Value)) : List (String × Value) :=
  ns.foldr (fun n ds =>
    if !Dictionary.contains ms n.1 && taken [.key n.1] then Dictionary.insert ds n.1 n.2 else ds) ds

mutual

/-- The first tree, with the changes towards the second one made at the places that are taken. -/
def blend (taken : Pointer → Bool) : Value → Value → Value
  | object ms, object ns =>
    object (addMembers taken ms ns (blendMembers taken ms ns))
  | v, w => if v == w then v else if taken [] then w else v

/-- The members of the first tree that stay, each with the changes below it. -/
def blendMembers (taken : Pointer → Bool) :
    List (String × Value) → List (String × Value) → List (String × Value)
  | [], _ => []
  | (k, v) :: ms, ns =>
    match Dictionary.get? ns k with
    | none => if taken [.key k] then blendMembers taken ms ns else (k, v) :: blendMembers taken ms ns
    | some w => (k, blend (takenBelow taken k) v w) :: blendMembers taken ms ns

end

/-- What a blend makes of a member that one of the trees or both may have. -/
def blendSlot (taken : Pointer → Bool) : Option Value → Option Value → Option Value
  | some v, some w => some (blend taken v w)
  | a, b => if taken [] then b else a

/-- The members of the blend of two objects. -/
def blendObject (taken : Pointer → Bool) (ms ns : List (String × Value)) : List (String × Value) :=
  addMembers taken ms ns (blendMembers taken ms ns)

variable {taken : Pointer → Bool} {ms ns : List (String × Value)} {v w : Value}

theorem blend_object : blend taken (object ms) (object ns) = object (blendObject taken ms ns) := rfl

theorem blend_of_not_objects (h : (v.isObject && w.isObject) = false) :
    blend taken v w = if v == w then v else if taken [] then w else v := by
  cases v <;> cases w <;> first | rfl | simp [isObject, members?] at h

theorem get?_blendMembers (key : String) :
    Dictionary.get? (blendMembers taken ms ns) key =
      (Dictionary.get? ms key).bind fun v =>
        blendSlot (takenBelow taken key) (some v) (Dictionary.get? ns key) := by
  induction ms with
  | nil => rfl
  | cons e ms ih =>
    obtain ⟨k, v⟩ := e
    by_cases hk : k = key
    · subst hk
      cases hn : Dictionary.get? ns k with
      | none =>
        by_cases ht : taken [.key k]
        · simp only [blendMembers, hn, ht, if_true, ih]
          cases Dictionary.get? ms k <;> simp [blendSlot, takenBelow, ht, Dictionary.get?]
        · simp [blendMembers, hn, ht, Dictionary.get?, blendSlot, takenBelow]
      | some w => simp [blendMembers, hn, Dictionary.get?, blendSlot]
    · cases hn : Dictionary.get? ns k with
      | none =>
        by_cases ht : taken [.key k] <;> simp [blendMembers, hn, ht, Dictionary.get?, hk, ih]
      | some w => simp [blendMembers, hn, Dictionary.get?, hk, ih]

/-- A name that the first tree has is not added. -/
theorem get?_addMembers_of_contains {ds : List (String × Value)} {key : String}
    (h : Dictionary.contains ms key = true) :
    Dictionary.get? (addMembers taken ms ns ds) key = Dictionary.get? ds key := by
  induction ns with
  | nil => rfl
  | cons n ns ih =>
    unfold addMembers at ih ⊢
    rw [List.foldr_cons]
    split
    · rename_i hn
      have hne : n.1 ≠ key := by
        rintro rfl
        simp [h] at hn
      rw [Dictionary.get?_insert, if_neg hne, ih]
    · exact ih

/-- A name that only the second tree has is added if its place is taken. -/
theorem get?_addMembers_of_not_contains {ds : List (String × Value)} {key : String}
    (h : Dictionary.contains ms key = false) (hd : Dictionary.get? ds key = none) :
    Dictionary.get? (addMembers taken ms ns ds) key
      = if taken [.key key] then Dictionary.get? ns key else none := by
  induction ns with
  | nil => simp [addMembers, hd]
  | cons n ns ih =>
    obtain ⟨l, w⟩ := n
    unfold addMembers at ih ⊢
    rw [List.foldr_cons]
    by_cases hl : l = key
    · subst hl
      cases ht : taken [.key l]
      · simpa [ht] using ih
      · simp [h, Dictionary.get?_insert, Dictionary.get?]
    · split
      · simpa [Dictionary.get?_insert, hl, Dictionary.get?] using ih
      · simpa [hl, Dictionary.get?] using ih

/-- The blend of two objects is read member by member. -/
theorem get?_blendObject (key : String) :
    Dictionary.get? (blendObject taken ms ns) key =
      blendSlot (takenBelow taken key) (Dictionary.get? ms key) (Dictionary.get? ns key) := by
  cases hm : Dictionary.get? ms key with
  | none =>
    have hnot : Dictionary.contains ms key = false := by simp [Dictionary.contains, hm]
    have hkept : Dictionary.get? (blendMembers taken ms ns) key = none := by
      rw [get?_blendMembers, hm]
      rfl
    rw [blendObject, get?_addMembers_of_not_contains hnot hkept]
    rfl
  | some v =>
    have hin : Dictionary.contains ms key = true := by simp [Dictionary.contains, hm]
    rw [blendObject, get?_addMembers_of_contains hin, get?_blendMembers, hm]
    rfl

/-! ## Blends are well-formed -/

theorem map_fst_blendMembers_sublist :
    ((blendMembers taken ms ns).map Prod.fst).Sublist (ms.map Prod.fst) := by
  induction ms with
  | nil => exact List.Sublist.refl _
  | cons e ms ih =>
    obtain ⟨k, v⟩ := e
    unfold blendMembers
    split
    · split
      · exact ih.cons k
      · exact ih.cons_cons k
    · exact ih.cons_cons k

theorem sorted_addMembers {ds : List (String × Value)} (hd : Dictionary.Sorted ds) :
    Dictionary.Sorted (addMembers taken ms ns ds) := by
  induction ns with
  | nil => exact hd
  | cons n ns ih =>
    unfold addMembers at ih ⊢
    rw [List.foldr_cons]
    split
    · exact Dictionary.sorted_insert ih n.1 n.2
    · exact ih

theorem sorted_blendObject (hm : Dictionary.Sorted ms) :
    Dictionary.Sorted (blendObject taken ms ns) := by
  have hkeys : (ms.map Prod.fst).Pairwise (· < ·) := List.pairwise_map.2 hm
  have hkept : Dictionary.Sorted (blendMembers taken ms ns) :=
    List.pairwise_map.1 (hkeys.sublist map_fst_blendMembers_sublist)
  exact sorted_addMembers hkept

theorem wellFormed_blend (hv : v.WellFormed) (hw : w.WellFormed) : (blend taken v w).WellFormed := by
  induction v, w using induct₂ generalizing taken with
  | objects ms ns ih =>
    obtain ⟨hm, hms⟩ := wellFormed_object_iff.1 hv
    obtain ⟨hn, hns⟩ := wellFormed_object_iff.1 hw
    rw [blend_object]
    refine wellFormed_object_iff.2 ⟨sorted_blendObject hm, fun key u hu => ?_⟩
    rw [get?_blendObject] at hu
    cases ha : Dictionary.get? ms key with
    | none =>
      simp only [ha, blendSlot] at hu
      split at hu
      · exact hns key u hu
      · cases hu
    | some a =>
      cases hb : Dictionary.get? ns key with
      | none =>
        simp only [ha, hb, blendSlot] at hu
        split at hu
        · cases hu
        · exact hms key u (ha.trans hu)
      | some b =>
        simp only [ha, hb, blendSlot, Option.some.injEq] at hu
        exact hu ▸ ih key a b ha hb (hms key a ha) (hns key b hb)
  | other v w h =>
    rw [blend_of_not_objects h]
    split
    · exact hv
    · split
      · exact hw
      · exact hv

/-! ## No change and all changes -/

theorem blend_none (hv : v.WellFormed) : blend (fun _ => false) v w = v := by
  induction v, w using induct₂ with
  | objects ms ns ih =>
    obtain ⟨hm, hms⟩ := wellFormed_object_iff.1 hv
    rw [blend_object]
    congr 1
    refine Dictionary.ext_of_sorted (sorted_blendObject hm) hm fun key => ?_
    rw [get?_blendObject]
    cases ha : Dictionary.get? ms key with
    | none => rfl
    | some a =>
      cases hb : Dictionary.get? ns key with
      | none => rfl
      | some b => exact congrArg some (ih key a b ha hb (hms key a ha))
  | other v w ho =>
    rw [blend_of_not_objects ho]
    split <;> rfl

/-- The first tree with all changes made: equal to the second one, though an equal number may stay
written as it was. -/
abbrev settled (v w : Value) : Value := blend (fun _ => true) v w

theorem same_settled (hv : v.WellFormed) (hw : w.WellFormed) : (settled v w).same w = true := by
  induction v, w using induct₂ with
  | objects ms ns ih =>
    obtain ⟨hm, hms⟩ := wellFormed_object_iff.1 hv
    obtain ⟨hn, hns⟩ := wellFormed_object_iff.1 hw
    rw [settled, blend_object]
    refine sameMembers_of_forall (sorted_blendObject hm) hn fun key => ?_
    rw [get?_blendObject]
    cases ha : Dictionary.get? ms key with
    | none => exact SameOption.refl _
    | some a =>
      cases hb : Dictionary.get? ns key with
      | none => trivial
      | some b => exact ih key a b ha hb (hms key a ha) (hns key b hb)
  | other v w ho =>
    rw [settled, blend_of_not_objects ho]
    split
    · assumption
    · exact same_refl w

end Value

end ConfigUpdate
