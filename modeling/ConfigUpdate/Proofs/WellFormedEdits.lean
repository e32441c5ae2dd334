import ConfigUpdate.Patch.Operation
import ConfigUpdate.Proofs.ObjectStep
import Mathlib.Data.List.InsertIdx

/-!
# Edits of well-formed trees

No edit puts the names of an object out of order, so whatever a patch makes of a well-formed tree is well-formed
if the values of the patch are: `Operation.wellFormed_runAll`.
-/

namespace ConfigUpdate

namespace Value

variable {v v' c new : Value} {step : Step} {location : String} {p : Pointer}

theorem wellFormedItems_iff {xs : List Value} : WellFormedItems xs ↔ ∀ x ∈ xs, x.WellFormed := by
  induction xs with
  | nil => simp [WellFormedItems]
  | cons x xs ih => simp [WellFormedItems, ih]

theorem wellFormed_array_iff {xs : List Value} : (array xs).WellFormed ↔ ∀ x ∈ xs, x.WellFormed :=
  wellFormedItems_iff

/-! ## One member or item -/

theorem wellFormed_insert {ms : List (String × Value)} (hms : (object ms).WellFormed) (hnew : new.WellFormed)
    (key : String) : (object (Dictionary.insert ms key new)).WellFormed := by
  obtain ⟨hsorted, hvalues⟩ := wellFormed_object_iff.1 hms
  refine wellFormed_object_iff.2 ⟨Dictionary.sorted_insert hsorted key new, fun key' w hw => ?_⟩
  rw [Dictionary.get?_insert] at hw
  split at hw
  · cases hw
    exact hnew
  · exact hvalues key' w hw

theorem wellFormed_erase {ms : List (String × Value)} (hms : (object ms).WellFormed) (key : String) :
    (object (Dictionary.erase ms key)).WellFormed := by
  obtain ⟨hsorted, hvalues⟩ := wellFormed_object_iff.1 hms
  refine wellFormed_object_iff.2 ⟨Dictionary.sorted_erase hsorted key, fun key' w hw => ?_⟩
  rw [Dictionary.get?_erase hsorted] at hw
  split at hw
  · cases hw
  · exact hvalues key' w hw

theorem wellFormed_child (hv : v.WellFormed) (h : v.child step location = .ok c) : c.WellFormed := by
  cases v with
  | scalar s => cases h
  | object ms =>
    unfold child at h
    cases hget : Dictionary.get? ms step.name with
    | none => simp [hget] at h
    | some c' =>
      simp only [hget, Except.ok.injEq] at h
      subst h
      exact (wellFormed_object_iff.1 hv).2 _ _ hget
  | array xs =>
    obtain ⟨i, -, h⟩ := exists_of_bind_eq_ok h
    cases hget : xs[i]? with
    | none => simp [hget] at h
    | some c' =>
      simp only [hget, Except.ok.injEq] at h
      subst h
      exact wellFormed_array_iff.1 hv _ (List.mem_of_getElem? hget)

theorem wellFormed_setChild (hv : v.WellFormed) (hc : c.WellFormed) : (v.setChild step c).WellFormed := by
  cases v with
  | scalar s => exact hv
  | object ms => exact wellFormed_insert hv hc step.name
  | array xs =>
    simp only [setChild]
    split
    · refine wellFormed_array_iff.2 fun x hx => ?_
      rcases List.mem_or_eq_of_mem_set hx with hx | rfl
      · exact wellFormed_array_iff.1 hv x hx
      · exact hc
    · exact hv

theorem wellFormed_insertChild (hv : v.WellFormed) (hnew : new.WellFormed) {u : Unit}
    (h : insertChild step new location v = .ok (v', u)) : v'.WellFormed := by
  cases v with
  | scalar s => cases h
  | object ms =>
    cases h
    exact wellFormed_insert hv hnew step.name
  | array xs =>
    obtain ⟨i, -, h⟩ := exists_of_bind_eq_ok h
    cases h
    refine wellFormed_array_iff.2 fun x hx => ?_
    rcases List.eq_or_mem_of_mem_insertIdx hx with rfl | hx
    · exact hnew
    · exact wellFormed_array_iff.1 hv x hx

theorem wellFormed_removeChild {old : Value} (hv : v.WellFormed)
    (h : removeChild step location v = .ok (v', old)) : v'.WellFormed ∧ old.WellFormed := by
  cases v with
  | scalar s => cases h
  | object ms =>
    simp only [removeChild] at h
    split at h
    · rename_i c hget
      cases h
      exact ⟨wellFormed_erase hv step.name, (wellFormed_object_iff.1 hv).2 _ _ hget⟩
    · cases h
  | array xs =>
    obtain ⟨i, -, h⟩ := exists_of_bind_eq_ok h
    have hitems := wellFormed_array_iff.1 hv
    split at h
    · rename_i c hget
      cases h
      have hrest : ∀ x ∈ xs.eraseIdx i, x.WellFormed := fun x hx => hitems x (List.mem_of_mem_eraseIdx hx)
      exact ⟨wellFormed_array_iff.2 hrest, hitems _ (List.mem_of_getElem? hget)⟩
    · cases h

/-! ## Nodes at pointers -/

theorem wellFormed_resolveFrom (hv : v.WellFormed) (h : resolveFrom location v p = .ok c) : c.WellFormed := by
  induction p generalizing v location with
  | nil =>
    cases h
    exact hv
  | cons s p ih =>
    obtain ⟨w, hw, h⟩ := exists_of_bind_eq_ok h
    exact ih (wellFormed_child hv hw) h

theorem wellFormed_alterFrom {α : Type} {P : α → Prop} {f : String → Value → Except ResolveError (Value × α)}
    (hf : ∀ location w w' b, w.WellFormed → f location w = .ok (w', b) → w'.WellFormed ∧ P b)
    (hv : v.WellFormed) {a : α} (h : alterFrom location f v p = .ok (v', a)) : v'.WellFormed ∧ P a := by
  induction p generalizing v v' location with
  | nil => exact hf location v v' a hv h
  | cons s p ih =>
    obtain ⟨w, hw, h⟩ := exists_of_bind_eq_ok h
    obtain ⟨⟨w', b⟩, hbelow, h⟩ := exists_of_bind_eq_ok h
    cases h
    obtain ⟨hw', hb⟩ := ih (wellFormed_child hv hw) hbelow
    exact ⟨wellFormed_setChild hv hw', hb⟩

theorem wellFormed_insertAt (hv : v.WellFormed) (hnew : new.WellFormed) (h : v.insertAt p new = .ok v') :
    v'.WellFormed := by
  unfold insertAt at h
  split at h
  · cases h
    exact hnew
  · obtain ⟨⟨w, u⟩, halter, h⟩ := exists_of_bind_eq_ok h
    cases h
    have hinsert := wellFormed_alterFrom (P := fun _ => True)
      (fun _ _ _ _ hw hw' => ⟨wellFormed_insertChild hw hnew hw', trivial⟩) hv halter
    exact hinsert.1

theorem wellFormed_removeAt {old : Value} (hv : v.WellFormed) (h : v.removeAt p = .ok (v', old)) :
    v'.WellFormed ∧ old.WellFormed := by
  unfold removeAt at h
  split at h
  · cases h
    exact ⟨wellFormed_empty, hv⟩
  · exact wellFormed_alterFrom (fun _ _ _ _ hw hw' => wellFormed_removeChild hw hw') hv h

theorem wellFormed_replaceAt {old : Value} (hv : v.WellFormed) (hnew : new.WellFormed)
    (h : v.replaceAt p new = .ok (v', old)) : v'.WellFormed ∧ old.WellFormed := by
  refine wellFormed_alterFrom (fun _ w w' b hw hw' => ?_) hv h
  cases hw'
  exact ⟨hnew, hw⟩

end Value

/-! ## Operations -/

namespace Operation

variable {op : Operation} {tree after v : Value}

theorem edited_eq_ok {α : Type} {x : Except ResolveError α} {a : α} (h : edited x = .ok a) : x = .ok a := by
  cases x with
  | error e => cases h
  | ok b =>
    cases h
    rfl

theorem needValue_eq_ok (h : op.needValue = .ok v) : op.value = some v := by
  unfold needValue at h
  split at h
  · rename_i hvalue
    cases h
    exact hvalue
  · cases h

theorem wellFormed_run (htree : tree.WellFormed) (hvalue : ∀ v, op.value = some v → v.WellFormed)
    (h : op.run tree = .ok after) : after.WellFormed := by
  unfold run at h
  cases hverb : op.verb with
  | add =>
    simp only [hverb] at h
    obtain ⟨v, hv, h⟩ := exists_of_bind_eq_ok h
    exact Value.wellFormed_insertAt htree (hvalue v (needValue_eq_ok hv)) (edited_eq_ok h)
  | remove =>
    simp only [hverb] at h
    obtain ⟨⟨t, old⟩, hremove, h⟩ := exists_of_bind_eq_ok h
    cases h
    exact (Value.wellFormed_removeAt htree (edited_eq_ok hremove)).1
  | replace =>
    simp only [hverb] at h
    obtain ⟨v, hv, h⟩ := exists_of_bind_eq_ok h
    obtain ⟨⟨t, old⟩, hreplace, h⟩ := exists_of_bind_eq_ok h
    cases h
    exact (Value.wellFormed_replaceAt htree (hvalue v (needValue_eq_ok hv)) (edited_eq_ok hreplace)).1
  | move =>
    simp only [hverb] at h
    obtain ⟨source, -, h⟩ := exists_of_bind_eq_ok h
    split at h
    · cases h
    · obtain ⟨⟨t, moved⟩, hremove, h⟩ := exists_of_bind_eq_ok h
      obtain ⟨ht, hmoved⟩ := Value.wellFormed_removeAt htree (edited_eq_ok hremove)
      exact Value.wellFormed_insertAt ht hmoved (edited_eq_ok h)
  | copy =>
    simp only [hverb] at h
    obtain ⟨source, -, h⟩ := exists_of_bind_eq_ok h
    obtain ⟨copied, hcopied, h⟩ := exists_of_bind_eq_ok h
    have hwf : copied.WellFormed := Value.wellFormed_resolveFrom htree (edited_eq_ok hcopied)
    exact Value.wellFormed_insertAt htree hwf (edited_eq_ok h)
  | test =>
    simp only [hverb] at h
    obtain ⟨expected, -, h⟩ := exists_of_bind_eq_ok h
    obtain ⟨found, -, h⟩ := exists_of_bind_eq_ok h
    split at h
    · cases h
      exact htree
    · cases h

/-- A patch whose values are well-formed keeps a tree well-formed. -/
theorem wellFormed_runAll {ops : List Operation} (htree : tree.WellFormed)
    (hvalues : ∀ op ∈ ops, ∀ v, op.value = some v → v.WellFormed) (h : runAll tree ops = .ok after) :
    after.WellFormed := by
  suffices hfrom : ∀ index, runFrom index tree ops = .ok after → after.WellFormed from hfrom 0 h
  clear h
  induction ops generalizing tree with
  | nil =>
    intro index h
    cases h
    exact htree
  | cons op ops ih =>
    intro index h
    obtain ⟨hvalue, hvalues⟩ := List.forall_mem_cons.1 hvalues
    unfold runFrom at h
    split at h
    · rename_i t hrun
      have ht := wellFormed_run htree hvalue hrun
      exact ih ht hvalues (index + 1) h
    · cases h

end Operation

end ConfigUpdate
