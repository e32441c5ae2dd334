import ConfigUpdate.Key
import ConfigUpdate.Proofs.TextParts
import Mathlib.Data.List.Induction
import Mathlib.Logic.Relation
import Mathlib.Order.Defs.Unbundled

/-!
# Ancestry of entry keys

An entry belongs to those whose keys have some of the first components of its own. In texts, the key of such an entry
stands in front of a separator, and it is reached by taking the parent once or more: `EntryKey.ancestry_textual`. The
simple one among them is the base.
-/

namespace ConfigUpdate

namespace EntryKey

variable {k l : EntryKey} {a b : String}

/-! ## Texts of keys -/

/-- A key that has been read is written as it was. -/
theorem text_ofText (a : String) : (ofText a).text = a := by
  have hparts : (Text.split '|' a).map String.toList = Text.splitChars '|' a.toList := by
    simp [Text.split, Function.comp_def]
  rw [text, ofText, Text.join, hparts, Text.joinChars_splitChars, String.ofList_toList]

theorem ofText_injective (h : ofText a = ofText b) : a = b := by
  rw [← text_ofText a, h, text_ofText]

theorem components_ofText_ne_nil (a : String) : (ofText a).components ≠ [] :=
  mt List.map_eq_nil_iff.1 (Text.splitChars_ne_nil '|' a.toList)

theorem components_ofText_append (a rest : String) :
    (ofText (a ++ "|" ++ rest)).components = (ofText a).components ++ (ofText rest).components := by
  have hlist : (a ++ "|" ++ rest).toList = a.toList ++ '|' :: rest.toList := by simp
  rw [ofText, Text.split, hlist, Text.splitChars_append, List.map_append]
  rfl

theorem text_of_components_eq {parts : List String} (hk : k.components ≠ []) (hparts : parts ≠ [])
    (h : l.components = k.components ++ parts) : l.text = k.text ++ "|" ++ Text.join '|' parts := by
  have hne : k.components.map String.toList ≠ [] := mt List.map_eq_nil_iff.1 hk
  have hne' : parts.map String.toList ≠ [] := mt List.map_eq_nil_iff.1 hparts
  rw [← String.toList_inj, text, text, h, Text.join, List.map_append, Text.joinChars_append hne hne']
  simp [Text.join]

/-! ## Ancestors -/

theorem isAncestorOf_iff :
    k.isAncestorOf l = true ↔ ∃ parts, parts ≠ [] ∧ l.components = k.components ++ parts := by
  rw [isAncestorOf, Bool.and_eq_true, decide_eq_true_eq, List.isPrefixOf_iff_prefix]
  constructor
  · rintro ⟨hlength, parts, hparts⟩
    refine ⟨parts, ?_, hparts.symm⟩
    rintro rfl
    rw [← hparts, List.append_nil] at hlength
    exact Nat.lt_irrefl _ hlength
  · rintro ⟨parts, hne, hparts⟩
    have hpos : 0 < parts.length := List.length_pos_iff.2 hne
    rw [hparts, List.length_append]
    exact ⟨by omega, List.prefix_append _ _⟩

/-- In texts, an ancestor is what stands in front of a separator. -/
theorem isAncestorOf_ofText_iff : (ofText a).isAncestorOf (ofText b) = true ↔ ∃ rest, b = a ++ "|" ++ rest := by
  rw [isAncestorOf_iff]
  constructor
  · rintro ⟨parts, hne, hparts⟩
    have htext := text_of_components_eq (components_ofText_ne_nil a) hne hparts
    rw [text_ofText, text_ofText] at htext
    exact ⟨_, htext⟩
  · rintro ⟨rest, rfl⟩
    exact ⟨(ofText rest).components, components_ofText_ne_nil rest, components_ofText_append a rest⟩

theorem isAncestorOf_irrefl (k : EntryKey) : ¬ k.isAncestorOf k = true := by
  intro h
  obtain ⟨parts, hne, hparts⟩ := isAncestorOf_iff.1 h
  exact hne (List.self_eq_append_right.1 hparts)

theorem isAncestorOf_trans {m : EntryKey} (hkl : k.isAncestorOf l = true) (hlm : l.isAncestorOf m = true) :
    k.isAncestorOf m = true := by
  obtain ⟨parts, hne, hl⟩ := isAncestorOf_iff.1 hkl
  obtain ⟨parts', -, hm⟩ := isAncestorOf_iff.1 hlm
  refine isAncestorOf_iff.2 ⟨parts ++ parts', List.append_ne_nil_of_left_ne_nil hne parts', ?_⟩
  rw [hm, hl, List.append_assoc]

theorem isStrictOrder_isAncestorOf : IsStrictOrder EntryKey fun k l => k.isAncestorOf l = true where
  irrefl := isAncestorOf_irrefl
  trans _ _ _ := isAncestorOf_trans

/-! ## Parents -/

/-- The second key is the parent of the first one. -/
def HasParent (k l : EntryKey) : Prop :=
  k.parent? = some l

theorem hasParent_iff : HasParent l k ↔ k.components ≠ [] ∧ ∃ part, l.components = k.components ++ [part] := by
  unfold HasParent parent? isCompound
  constructor
  · intro h
    split at h
    · rename_i hcompound
      have hlength : 1 < l.components.length := by simpa using hcompound
      have hne : l.components ≠ [] := List.ne_nil_of_length_pos (by omega)
      obtain rfl := Option.some.inj h
      refine ⟨List.ne_nil_of_length_pos ?_, l.components.getLast hne, (List.dropLast_concat_getLast hne).symm⟩
      rw [List.length_dropLast]
      omega
    · cases h
  · rintro ⟨hne, part, hpart⟩
    have hpos : 0 < k.components.length := List.length_pos_iff.2 hne
    have hcompound : decide (l.components.length > 1) = true := by
      rw [hpart, List.length_append, List.length_singleton, decide_eq_true_eq]
      omega
    rw [if_pos hcompound, hpart, List.dropLast_concat]

theorem HasParent.isAncestorOf (h : HasParent l k) : k.isAncestorOf l = true := by
  obtain ⟨-, part, hpart⟩ := hasParent_iff.1 h
  exact isAncestorOf_iff.2 ⟨[part], List.cons_ne_nil _ _, hpart⟩

/-- The ancestors of a key are its parent, the parent of its parent, and so on. -/
theorem isAncestorOf_iff_transGen (hk : k.components ≠ []) :
    k.isAncestorOf l = true ↔ Relation.TransGen HasParent l k := by
  constructor
  · intro h
    obtain ⟨parts, hne, hparts⟩ := isAncestorOf_iff.1 h
    -- The parent of the longer key has one component less, and ends the way unless it is the ancestor.
    induction parts using List.reverseRecOn generalizing l with
    | nil => exact absurd rfl hne
    | append_singleton parts part ih =>
      by_cases hnil : parts = []
      · subst hnil
        exact .single (hasParent_iff.2 ⟨hk, part, hparts⟩)
      · have hparent : HasParent l ⟨k.components ++ parts⟩ :=
          hasParent_iff.2 ⟨List.append_ne_nil_of_left_ne_nil hk parts, part, by rw [hparts, List.append_assoc]⟩
        have hancestor : k.isAncestorOf ⟨k.components ++ parts⟩ = true := isAncestorOf_iff.2 ⟨parts, hnil, rfl⟩
        exact .head hparent (ih hancestor hnil rfl)
  · intro h
    clear hk
    induction h with
    | single hparent => exact hparent.isAncestorOf
    | tail _ hparent ih => exact isAncestorOf_trans hparent.isAncestorOf ih

/-! ## Bases -/

/-- The only key with one component at or above a key consists of its base; a key without components has none. -/
theorem simple_and_above_iff :
    l.components.length = 1 ∧ (l = k ∨ l.isAncestorOf k = true) ↔ k.components ≠ [] ∧ l = ⟨[k.base]⟩ := by
  constructor
  · rintro ⟨hlength, habove⟩
    obtain ⟨part, hpart⟩ := List.length_eq_one_iff.1 hlength
    obtain rfl | habove := habove
    · exact ⟨by rw [hpart]; exact List.cons_ne_nil _ _, by rw [base, hpart, List.headD_cons, ← hpart]⟩
    · obtain ⟨parts, -, hparts⟩ := isAncestorOf_iff.1 habove
      rw [hpart] at hparts
      refine ⟨by rw [hparts]; exact List.cons_ne_nil _ _, ?_⟩
      rw [base, hparts, List.singleton_append, List.headD_cons, ← hpart]
  · rintro ⟨hne, rfl⟩
    refine ⟨rfl, ?_⟩
    obtain ⟨part, parts, hparts⟩ := List.exists_cons_of_ne_nil hne
    have hbase : k.base = part := by rw [base, hparts, List.headD_cons]
    by_cases hnil : parts = []
    · left
      rw [hbase, ← List.cons_eq_cons.2 ⟨rfl, hnil⟩, ← hparts]
    · right
      exact isAncestorOf_iff.2 ⟨parts, hnil, by rw [hparts, hbase]; rfl⟩

theorem isCompound_ofText_eq_false_iff : (ofText b).isCompound = false ↔ (ofText b).components.length = 1 := by
  have hpos : 0 < (ofText b).components.length := List.length_pos_iff.2 (components_ofText_ne_nil b)
  rw [isCompound, decide_eq_false_iff_not]
  omega

/-- A base has no separator. -/
theorem ofText_base (a : String) : ofText (ofText a).base = ⟨[(ofText a).base]⟩ := by
  obtain ⟨part, parts, hparts⟩ := List.exists_cons_of_ne_nil (Text.splitChars_ne_nil '|' a.toList)
  have hbase : (ofText a).base = String.ofList part := by simp [ofText, Text.split, base, hparts]
  have hpart : '|' ∉ part := Text.not_mem_of_mem_splitChars (hparts ▸ List.mem_cons_self)
  rw [hbase, ofText, Text.split, String.toList_ofList, Text.splitChars_of_not_mem hpart]
  rfl

/-- The base of a key is its only simple ancestor or the key itself. -/
theorem simple_above_ofText_iff :
    (ofText b).isCompound = false ∧ (ofText b = ofText a ∨ (ofText b).isAncestorOf (ofText a) = true) ↔
      b = (ofText a).base := by
  rw [isCompound_ofText_eq_false_iff, simple_and_above_iff, ← ofText_base,
    and_iff_right (components_ofText_ne_nil a)]
  exact ⟨fun h => ofText_injective h, fun h => congrArg ofText h⟩

/-- A key is written as it was read. One key is an ancestor of another one exactly if its text and a separator stand in
front of the text of the other one, and exactly if it is reached from there by taking the parent once or more. So keys
are strictly ordered, and the simple key above or at a key is its base. -/
theorem ancestry_textual :
    (∀ a, (ofText a).text = a) ∧
    (∀ a b, (ofText a).isAncestorOf (ofText b) = true ↔ ∃ rest, b = a ++ "|" ++ rest) ∧
    (∀ a b, (ofText a).isAncestorOf (ofText b) = true ↔ Relation.TransGen HasParent (ofText b) (ofText a)) ∧
    (IsStrictOrder EntryKey fun k l => k.isAncestorOf l = true) ∧
    (∀ a b, (ofText b).isCompound = false ∧ (ofText b = ofText a ∨ (ofText b).isAncestorOf (ofText a) = true) ↔
      b = (ofText a).base) ∧
    ∀ k l : EntryKey, l.components.length = 1 ∧ (l = k ∨ l.isAncestorOf k = true) ↔
      k.components ≠ [] ∧ l = ⟨[k.base]⟩ :=
  ⟨text_ofText, fun _ _ => isAncestorOf_ofText_iff,
    fun a _ => isAncestorOf_iff_transGen (components_ofText_ne_nil a), isStrictOrder_isAncestorOf,
    fun _ _ => simple_above_ofText_iff, fun _ _ => simple_and_above_iff⟩

/-- Components may be empty, also the base. -/
example : (ofText "").isAncestorOf (ofText "||") = true ∧ (ofText "||").base = "" := by decide

end EntryKey

end ConfigUpdate
