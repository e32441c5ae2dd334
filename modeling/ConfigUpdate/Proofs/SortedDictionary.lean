import ConfigUpdate.Dictionary
import Mathlib.Data.List.Nodup
import Mathlib.Order.RelClasses

/-!
# Dictionaries with ascending keys

Setting and erasing a key keep the keys ascending, and a dictionary with ascending keys is determined by
what it gives for every key: `Dictionary.ext_of_sorted`. So two ways to build a dictionary are compared
key by key, and the order in which keys were set does not matter.
-/

namespace ConfigUpdate

namespace Dictionary

variable {κ α : Type} [LT κ] [DecidableLT κ] [DecidableEq κ]

/-- The dictionary with a key set to a value or, for no value, without the key. -/
def put (d : Dictionary κ α) (key : κ) : Option α → Dictionary κ α
  | some value => insert d key value
  | none => erase d key

/-! ## Members -/

omit [LT κ] [DecidableLT κ] in
theorem mem_of_get? {d : Dictionary κ α} {key : κ} {value : α} (h : get? d key = some value) :
    (key, value) ∈ d := by
  induction d with
  | nil => simp at h
  | cons e d ih =>
    obtain ⟨k, v⟩ := e
    by_cases hk : k = key
    · subst hk
      simp only [get?, if_true, Option.some.injEq] at h
      simp [h]
    · simp only [get?, hk, if_false] at h
      exact List.mem_cons_of_mem _ (ih h)

theorem mem_insert {d : Dictionary κ α} {key : κ} {value : α} {e : κ × α}
    (h : e ∈ insert d key value) : e = (key, value) ∨ e ∈ d := by
  induction d with
  | nil => simpa [insert] using h
  | cons e' d ih =>
    obtain ⟨k, v⟩ := e'
    unfold insert at h
    split at h
    · rcases List.mem_cons.1 h with h | h
      · exact .inl h
      · exact .inr (List.mem_cons_of_mem _ h)
    · split at h
      · exact List.mem_cons.1 h
      · rcases List.mem_cons.1 h with h | h
        · exact .inr (h ▸ List.mem_cons_self)
        · exact (ih h).imp_right (List.mem_cons_of_mem _)

omit [LT κ] [DecidableLT κ] in
theorem erase_sublist (d : Dictionary κ α) (key : κ) : (erase d key).Sublist d := by
  induction d with
  | nil => exact List.Sublist.refl _
  | cons e d ih =>
    obtain ⟨k, v⟩ := e
    by_cases hk : k = key
    · simp [erase, hk]
    · simp only [erase, hk, if_false]
      exact ih.cons_cons _

theorem insert_insert (d : Dictionary κ α) (key : κ) (v w : α) :
    insert (insert d key v) key w = insert d key w := by
  induction d with
  | nil => simp [insert]
  | cons e d ih =>
    obtain ⟨l, u⟩ := e
    by_cases hl : l = key
    · simp [insert, hl]
    · by_cases hlt : key < l
      · simp [insert, hl, hlt]
      · simp [insert, hl, hlt, ih]

omit [LT κ] [DecidableLT κ] in
theorem mem_keys_iff {d : Dictionary κ α} {key : κ} : key ∈ d.keys ↔ d.contains key = true := by
  induction d with
  | nil => simp [keys, contains]
  | cons e d ih =>
    obtain ⟨k, v⟩ := e
    have hcons : key ∈ keys ((k, v) :: d) ↔ key = k ∨ key ∈ keys d := List.mem_cons
    rw [hcons, ih]
    by_cases hk : k = key
    · simp [contains, get?, hk]
    · simp [contains, get?, hk, Ne.symm hk]

/-! ## Many keys at once -/

/-- Setting different keys one after another, each to its value. -/
theorem get?_foldl_insert {es : List (κ × α)} (hes : (es.map Prod.fst).Nodup) (d : Dictionary κ α) (key : κ) :
    get? (es.foldl (fun d e => insert d e.1 e.2) d) key = (get? es key).or (get? d key) := by
  induction es generalizing d with
  | nil => rfl
  | cons e es ih =>
    obtain ⟨k, v⟩ := e
    obtain ⟨hk, hes⟩ := List.nodup_cons.1 hes
    rw [List.foldl_cons, ih hes, get?_insert]
    by_cases hkey : k = key
    · subst hkey
      have hnone : get? es k = none :=
        get?_eq_none_of_forall_ne fun e he heq => hk (List.mem_map.2 ⟨e, he, heq⟩)
      simp [get?, hnone]
    · simp [get?, hkey]

theorem get?_ofList {es : List (κ × α)} (hes : (es.map Prod.fst).Nodup) (key : κ) :
    get? (ofList es) key = get? es key := by
  rw [ofList, get?_foldl_insert hes, get?_nil, Option.or_none]

theorem mem_keys_ofList {es : List (κ × α)} {key : κ} : key ∈ (ofList es).keys ↔ key ∈ es.map Prod.fst := by
  suffices h : ∀ d : Dictionary κ α, (es.foldl (fun d e => insert d e.1 e.2) d).contains key = true ↔
      key ∈ es.map Prod.fst ∨ d.contains key = true by
    rw [mem_keys_iff, ofList, h []]
    simp [contains]
  induction es with
  | nil => simp
  | cons e es ih =>
    intro d
    rw [List.foldl_cons, ih, List.map_cons, List.mem_cons]
    by_cases he : e.1 = key
    · simp [contains, get?_insert, he]
    · simp [contains, get?_insert, he, Ne.symm he]

/-! ## Ascending keys -/

section

variable [IsStrictTotalOrder κ (· < ·)]

omit [DecidableLT κ] in
theorem get?_of_mem {d : Dictionary κ α} (hd : d.Sorted) {key : κ} {value : α}
    (h : (key, value) ∈ d) : get? d key = some value := by
  induction d with
  | nil => simp at h
  | cons e d ih =>
    obtain ⟨k, v⟩ := e
    obtain ⟨hlt, hd⟩ := List.pairwise_cons.1 hd
    rcases List.mem_cons.1 h with h | h
    · cases h
      simp [get?]
    · have hk : k ≠ key := fun hk => irrefl_of (· < ·) key (hk ▸ hlt _ h)
      simp [get?, hk, ih hd h]

omit [DecidableLT κ] in
theorem get?_eq_some_iff {d : Dictionary κ α} (hd : d.Sorted) {key : κ} {value : α} :
    get? d key = some value ↔ (key, value) ∈ d :=
  ⟨mem_of_get?, get?_of_mem hd⟩

theorem sorted_insert {d : Dictionary κ α} (hd : d.Sorted) (key : κ) (value : α) :
    (insert d key value).Sorted := by
  induction d with
  | nil => exact List.pairwise_singleton _ _
  | cons e d ih =>
    obtain ⟨k, v⟩ := e
    obtain ⟨hlt, hd'⟩ := List.pairwise_cons.1 hd
    unfold insert
    split
    · rename_i hk
      subst hk
      exact List.pairwise_cons.2 ⟨hlt, hd'⟩
    · rename_i hk
      split
      · rename_i hkey
        refine List.pairwise_cons.2 ⟨fun e he => ?_, hd⟩
        rcases List.mem_cons.1 he with rfl | he
        · exact hkey
        · exact trans_of (· < ·) hkey (hlt e he)
      · rename_i hkey
        refine List.pairwise_cons.2 ⟨fun e he => ?_, ih hd'⟩
        rcases mem_insert he with rfl | he
        · exact ((trichotomous_of (· < ·) k key).resolve_right (not_or.2 ⟨hk, hkey⟩))
        · exact hlt e he

theorem length_insert {d : Dictionary κ α} (hd : d.Sorted) (key : κ) (value : α) :
    (insert d key value).length = if (get? d key).isSome then d.length else d.length + 1 := by
  induction d with
  | nil => rfl
  | cons e d ih =>
    obtain ⟨k, v⟩ := e
    obtain ⟨hlt, hd⟩ := List.pairwise_cons.1 hd
    unfold insert
    split
    · rename_i hk
      simp [get?, hk]
    · rename_i hk
      split
      · rename_i hkey
        -- All keys of the dictionary are greater, so it does not have the key.
        have hnone : get? ((k, v) :: d) key = none := by
          refine get?_eq_none_of_forall_ne fun e he heq => ?_
          rcases List.mem_cons.1 he with rfl | he
          · exact hk heq
          · exact asymm_of (· < ·) hkey (heq ▸ hlt e he)
        simp [hnone]
      · rw [List.length_cons, ih hd]
        simp only [get?, if_neg hk]
        split <;> rfl

omit [DecidableLT κ] [IsStrictTotalOrder κ (· < ·)] in
theorem sorted_erase {d : Dictionary κ α} (hd : d.Sorted) (key : κ) : (erase d key).Sorted :=
  List.Pairwise.sublist (erase_sublist d key) hd

omit [DecidableLT κ] in
theorem get?_erase {d : Dictionary κ α} (hd : d.Sorted) (key key' : κ) :
    get? (erase d key) key' = if key = key' then none else get? d key' := by
  induction d with
  | nil => simp [erase]
  | cons e d ih =>
    obtain ⟨k, v⟩ := e
    obtain ⟨hlt, hd⟩ := List.pairwise_cons.1 hd
    by_cases hk : k = key
    · subst hk
      by_cases h : k = key'
      · subst h
        simp only [erase, if_true]
        exact get?_eq_none_of_forall_ne fun e he heq => irrefl_of (· < ·) k (heq ▸ hlt e he)
      · simp [erase, get?, h]
    · by_cases h : k = key'
      · subst h
        simp [erase, get?, hk, Ne.symm hk]
      · simp [erase, get?, hk, h, ih hd]

omit [DecidableLT κ] in
theorem get?_filter {d : Dictionary κ α} (hd : d.Sorted) (test : κ × α → Bool) (key : κ) :
    get? (d.filter test) key = (get? d key).filter fun value => test (key, value) := by
  cases hget : get? d key with
  | none =>
    refine get?_eq_none_of_forall_ne fun e he heq => ?_
    have hmem := get?_of_mem hd (List.mem_of_mem_filter he)
    rw [heq, hget] at hmem
    cases hmem
  | some value =>
    have hmem : (key, value) ∈ d := mem_of_get? hget
    cases htest : test (key, value) with
    | true =>
      rw [get?_of_mem (hd.sublist List.filter_sublist) (List.mem_filter.2 ⟨hmem, htest⟩),
        Option.filter_some, htest]
      rfl
    | false =>
      rw [Option.filter_some, htest]
      refine get?_eq_none_of_forall_ne fun e he heq => ?_
      obtain ⟨he, htrue⟩ := List.mem_filter.1 he
      have hvalue := get?_of_mem hd he
      rw [heq, hget, Option.some.injEq] at hvalue
      rw [hvalue, ← heq] at htest
      rw [htest] at htrue
      cases htrue

theorem sorted_put {d : Dictionary κ α} (hd : d.Sorted) (key : κ) (value : Option α) :
    (put d key value).Sorted := by
  cases value with
  | none => exact sorted_erase hd key
  | some v => exact sorted_insert hd key v

theorem get?_put {d : Dictionary κ α} (hd : d.Sorted) (key key' : κ) (value : Option α) :
    get? (put d key value) key' = if key = key' then value else get? d key' := by
  cases value with
  | none => exact get?_erase hd key key'
  | some v => exact get?_insert d key key' v

omit [DecidableLT κ] [DecidableEq κ] in
theorem Sorted.nodup_keys {d : Dictionary κ α} (hd : d.Sorted) : d.keys.Nodup := by
  refine List.Pairwise.imp ?_ (List.pairwise_map.2 hd)
  rintro k l hkl rfl
  exact irrefl_of (· < ·) k hkl

omit [DecidableLT κ] in
/-- A dictionary with ascending keys is determined by its look-ups. -/
theorem ext_of_sorted {d d' : Dictionary κ α} (hd : d.Sorted) (hd' : d'.Sorted)
    (h : ∀ key, get? d key = get? d' key) : d = d' := by
  have hsub : ∀ {d d' : Dictionary κ α}, d.Sorted → d'.Sorted → (∀ key, get? d key = get? d' key) →
      d ⊆ d' := by
    intro d d' hd hd' h e he
    exact mem_of_get? (h e.1 ▸ get?_of_mem hd he)
  have hmem : ∀ e, e ∈ d ↔ e ∈ d' :=
    fun e => ⟨fun he => hsub hd hd' h he, fun he => hsub hd' hd (fun key => (h key).symm) he⟩
  have hperm := (List.perm_ext_iff_of_nodup hd.nodup_keys.of_map hd'.nodup_keys.of_map).2 hmem
  exact hperm.eq_of_pairwise (fun a b _ _ hab hba => absurd hba (asymm_of (· < ·) hab)) hd hd'

theorem insert_of_get? {d : Dictionary κ α} (hd : d.Sorted) {key : κ} {value : α}
    (h : get? d key = some value) : insert d key value = d := by
  refine ext_of_sorted (sorted_insert hd key value) hd fun key' => ?_
  rw [get?_insert]
  split
  · rename_i hkey
    rw [← hkey, h]
  · rfl

theorem insert_erase {d : Dictionary κ α} (hd : d.Sorted) (key : κ) (value : α) :
    insert (erase d key) key value = insert d key value := by
  have herased : (erase d key).Sorted := sorted_erase hd key
  refine ext_of_sorted (sorted_insert herased key value) (sorted_insert hd key value) fun key' => ?_
  rw [get?_insert, get?_insert, get?_erase hd]
  by_cases hkey : key = key'
  · simp [hkey]
  · simp [hkey]

theorem sorted_foldl_insert (es : List (κ × α)) {d : Dictionary κ α} (hd : d.Sorted) :
    (es.foldl (fun d e => insert d e.1 e.2) d).Sorted := by
  induction es generalizing d with
  | nil => exact hd
  | cons e es ih => exact ih (sorted_insert hd e.1 e.2)

theorem sorted_ofList (es : List (κ × α)) : (ofList es).Sorted :=
  sorted_foldl_insert es List.Pairwise.nil

theorem ofList_of_sorted {d : Dictionary κ α} (hd : d.Sorted) : ofList d = d :=
  ext_of_sorted (sorted_ofList d) hd (get?_ofList hd.nodup_keys)

end

end Dictionary

end ConfigUpdate
