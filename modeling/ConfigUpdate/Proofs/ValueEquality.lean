import ConfigUpdate.Value.Basic
import ConfigUpdate.Proofs.SortedDictionary
import Mathlib.Data.String.Basic

/-!
# Equality of values

`Value.same` is an equivalence that is not identity, since the two zeros are one number. Equal values have
the same hash: `Value.mix_eq_of_same`. Objects with ascending names are equal exactly if they give equal
values for every name: `Value.sameMembers_iff`.
-/

namespace ConfigUpdate

theorem Number.mix_eq_of_same {x y : Number} (h : x.same y = true) : x.mix = y.mix := by
  cases x <;> cases y <;>
    simp only [same, Binary64.same, Bool.or_eq_true, Bool.and_eq_true, beq_iff_eq, reduceCtorEq] at h
  · rw [h]
  · rcases h with rfl | ⟨hx, hy⟩
    · rfl
    · simp [mix, bits, hx, hy]

/-- Equal numbers are written alike, unless they are zeros. -/
theorem Number.render_of_same {x y : Number} (h : x.same y = true) :
    x.render = y.render ∨ x.render = "0.0" ∨ x.render = "-0.0" := by
  cases x <;> cases y <;>
    simp only [same, Binary64.same, Bool.or_eq_true, Bool.and_eq_true, beq_iff_eq, reduceCtorEq] at h
  · exact .inl (by rw [h])
  · rename_i a b
    rcases h with rfl | ⟨ha, -⟩
    · exact .inl rfl
    · right
      simp only [render, Binary64.render, ha, if_true]
      cases a.negative
      exacts [.inl rfl, .inr rfl]

namespace Scalar

theorem same_refl (s : Scalar) : s.same s = true := by
  cases s <;> simp [same, Number.same_refl]

theorem same_symm {s t : Scalar} (h : s.same t = true) : t.same s = true := by
  cases s <;> cases t <;> simp_all [same]
  exact Number.same_symm h

theorem same_trans {s t u : Scalar} (h : s.same t = true) (h' : t.same u = true) :
    s.same u = true := by
  cases s <;> cases t <;> cases u <;> simp_all [same]
  exact Number.same_trans h h'

/-- Equal leaves have the same text, unless they are zeros. -/
theorem fieldText_of_same {s t : Scalar} (h : s.same t = true) :
    s.fieldText = t.fieldText ∨ s.fieldText = "0.0" ∨ s.fieldText = "-0.0" := by
  cases s <;> cases t <;> simp_all [same, fieldText]
  exact Number.render_of_same h

theorem mix_eq_of_same {s t : Scalar} (h : s.same t = true) : s.mix = t.mix := by
  cases s <;> cases t <;> simp_all [same, mix]
  rw [Number.mix_eq_of_same h]

end Scalar

namespace Value

theorem sameItems_cons {x y : Value} {xs ys : List Value} :
    sameItems (x :: xs) (y :: ys) = true ↔ x.same y = true ∧ sameItems xs ys = true := by
  simp [sameItems]

theorem sameMembers_cons {k l : String} {x y : Value} {ms ns : List (String × Value)} :
    sameMembers ((k, x) :: ms) ((l, y) :: ns) = true ↔
      k = l ∧ x.same y = true ∧ sameMembers ms ns = true := by
  simp [sameMembers, and_assoc]

/-! ## Equality is an equivalence -/

mutual

theorem same_refl : ∀ v : Value, v.same v = true
  | .scalar s => by simp [same, Scalar.same_refl]
  | .array xs => by simp [same, sameItems_refl xs]
  | .object ms => by simp [same, sameMembers_refl ms]

theorem sameItems_refl : ∀ xs : List Value, sameItems xs xs = true
  | [] => rfl
  | x :: xs => by simp [sameItems, same_refl x, sameItems_refl xs]

theorem sameMembers_refl : ∀ ms : List (String × Value), sameMembers ms ms = true
  | [] => rfl
  | (k, x) :: ms => by simp [sameMembers, same_refl x, sameMembers_refl ms]

end

mutual

theorem same_symm : ∀ {v w : Value}, v.same w = true → w.same v = true
  | .scalar s, .scalar t, h => by
    simp only [same] at h ⊢
    exact Scalar.same_symm h
  | .array xs, .array ys, h => by
    simp only [same] at h ⊢
    exact sameItems_symm h
  | .object ms, .object ns, h => by
    simp only [same] at h ⊢
    exact sameMembers_symm h

theorem sameItems_symm : ∀ {xs ys : List Value}, sameItems xs ys = true → sameItems ys xs = true
  | [], [], _ => rfl
  | x :: xs, y :: ys, h => by
    simp only [sameItems, Bool.and_eq_true] at h ⊢
    exact ⟨same_symm h.1, sameItems_symm h.2⟩

theorem sameMembers_symm : ∀ {ms ns : List (String × Value)},
    sameMembers ms ns = true → sameMembers ns ms = true
  | [], [], _ => rfl
  | (k, x) :: ms, (l, y) :: ns, h => by
    simp only [sameMembers, Bool.and_eq_true, beq_iff_eq] at h ⊢
    exact ⟨⟨h.1.1.symm, same_symm h.1.2⟩, sameMembers_symm h.2⟩

end

mutual

theorem same_trans : ∀ {v w u : Value}, v.same w = true → w.same u = true → v.same u = true
  | .scalar s, .scalar t, .scalar _, h, h' => by
    simp only [same] at h h' ⊢
    exact Scalar.same_trans h h'
  | .array xs, .array ys, .array _, h, h' => by
    simp only [same] at h h' ⊢
    exact sameItems_trans h h'
  | .object ms, .object ns, .object _, h, h' => by
    simp only [same] at h h' ⊢
    exact sameMembers_trans h h'

theorem sameItems_trans : ∀ {xs ys zs : List Value},
    sameItems xs ys = true → sameItems ys zs = true → sameItems xs zs = true
  | [], [], [], _, _ => rfl
  | x :: xs, y :: ys, z :: zs, h, h' => by
    simp only [sameItems, Bool.and_eq_true] at h h' ⊢
    exact ⟨same_trans h.1 h'.1, sameItems_trans h.2 h'.2⟩

theorem sameMembers_trans : ∀ {ms ns os : List (String × Value)},
    sameMembers ms ns = true → sameMembers ns os = true → sameMembers ms os = true
  | [], [], [], _, _ => rfl
  | (k, x) :: ms, (l, y) :: ns, (m, z) :: os, h, h' => by
    simp only [sameMembers, Bool.and_eq_true, beq_iff_eq] at h h' ⊢
    exact ⟨⟨h.1.1.trans h'.1.1, same_trans h.1.2 h'.1.2⟩, sameMembers_trans h.2 h'.2⟩

end

mutual

theorem mix_eq_of_same : ∀ {v w : Value}, v.same w = true → v.mix = w.mix
  | .scalar s, .scalar t, h => by
    simp only [same] at h
    simp only [mix, Scalar.mix_eq_of_same h]
  | .array xs, .array ys, h => by
    simp only [same] at h
    exact mixItems_eq_of_same 29 h
  | .object ms, .object ns, h => by
    simp only [same] at h
    exact mixMembers_eq_of_same 31 h

theorem mixItems_eq_of_same : ∀ (n : UInt64) {xs ys : List Value},
    sameItems xs ys = true → mixItems n xs = mixItems n ys
  | _, [], [], _ => rfl
  | n, x :: xs, y :: ys, h => by
    simp only [sameItems, Bool.and_eq_true] at h
    simp only [mixItems, mix_eq_of_same h.1]
    exact mixItems_eq_of_same _ h.2

theorem mixMembers_eq_of_same : ∀ (n : UInt64) {ms ns : List (String × Value)},
    sameMembers ms ns = true → mixMembers n ms = mixMembers n ns
  | _, [], [], _ => rfl
  | n, (k, x) :: ms, (l, y) :: ns, h => by
    simp only [sameMembers, Bool.and_eq_true, beq_iff_eq] at h
    simp only [mixMembers, h.1.1, mix_eq_of_same h.1.2]
    exact mixMembers_eq_of_same _ h.2

end

/-- Equal values are two leaves, two arrays or two objects. -/
theorem same_cases {v w : Value} (h : v.same w = true) :
    (∃ s t, v = scalar s ∧ w = scalar t ∧ s.same t = true) ∨
      (∃ xs ys, v = array xs ∧ w = array ys ∧ sameItems xs ys = true) ∨
        ∃ ms ns, v = object ms ∧ w = object ns ∧ sameMembers ms ns = true := by
  cases v with
  | scalar s =>
    cases w with
    | scalar t => exact .inl ⟨s, t, rfl, rfl, by simpa [same] using h⟩
    | array ys => cases h
    | object ns => cases h
  | array xs =>
    cases w with
    | array ys => exact .inr (.inl ⟨xs, ys, rfl, rfl, by simpa [same] using h⟩)
    | scalar t => cases h
    | object ns => cases h
  | object ms =>
    cases w with
    | object ns => exact .inr (.inr ⟨ms, ns, rfl, rfl, by simpa [same] using h⟩)
    | scalar t => cases h
    | array ys => cases h

theorem same_isScalar {v w : Value} (h : v.same w = true) : v.isScalar = w.isScalar := by
  obtain ⟨s, t, rfl, rfl, -⟩ | ⟨xs, ys, rfl, rfl, -⟩ | ⟨ms, ns, rfl, rfl, -⟩ := same_cases h <;> rfl

theorem same_isObject {v w : Value} (h : v.same w = true) : v.isObject = w.isObject := by
  obtain ⟨s, t, rfl, rfl, -⟩ | ⟨xs, ys, rfl, rfl, -⟩ | ⟨ms, ns, rfl, rfl, -⟩ := same_cases h <;> rfl

/-! ## Members -/

/-- Two look-ups with equal results: both give equal values, or both give none. -/
def SameOption : Option Value → Option Value → Prop
  | some v, some w => v.same w = true
  | none, none => True
  | _, _ => False

theorem SameOption.refl (o : Option Value) : SameOption o o := by
  cases o with
  | none => trivial
  | some v => exact same_refl v

theorem SameOption.symm {o o' : Option Value} (h : SameOption o o') : SameOption o' o := by
  cases o <;> cases o' <;> first | trivial | exact h.elim | exact same_symm h

theorem SameOption.isSome_eq {o o' : Option Value} (h : SameOption o o') : o.isSome = o'.isSome := by
  cases o <;> cases o' <;> first | rfl | exact h.elim

/-- Equal objects give equal values for every name. -/
theorem sameOption_get? {ms ns : List (String × Value)} (h : sameMembers ms ns = true)
    (key : String) : SameOption (Dictionary.get? ms key) (Dictionary.get? ns key) := by
  induction ms generalizing ns with
  | nil =>
    cases ns with
    | nil => trivial
    | cons f ns => simp [sameMembers] at h
  | cons e ms ih =>
    cases ns with
    | nil => simp [sameMembers] at h
    | cons f ns =>
      obtain ⟨k, v⟩ := e
      obtain ⟨l, w⟩ := f
      simp only [sameMembers, Bool.and_eq_true, beq_iff_eq] at h
      obtain ⟨⟨rfl, hvw⟩, hrest⟩ := h
      by_cases hk : k = key
      · simpa [Dictionary.get?, hk, SameOption] using hvw
      · simpa [Dictionary.get?, hk] using ih hrest

/-- The first of the ascending names stands in no later member. -/
theorem get?_tail_eq_none {k : String} {v : Value} {ms : List (String × Value)}
    (h : Dictionary.Sorted ((k, v) :: ms)) : Dictionary.get? ms k = none := by
  obtain ⟨hlt, -⟩ := List.pairwise_cons.1 h
  exact Dictionary.get?_eq_none_of_forall_ne fun e he heq =>
    irrefl_of (· < ·) k (heq ▸ hlt e he)

/-- Objects with ascending names that both have members and give equal values have the same first name. -/
theorem head_name_eq {k l : String} {v w : Value} {ms ns : List (String × Value)}
    (hm : Dictionary.Sorted ((k, v) :: ms)) (hn : Dictionary.Sorted ((l, w) :: ns))
    (h : ∀ key, SameOption (Dictionary.get? ((k, v) :: ms) key)
      (Dictionary.get? ((l, w) :: ns) key)) : k = l := by
  by_contra hne
  have hk := (h k).isSome_eq
  have hl := (h l).isSome_eq
  simp only [Dictionary.get?, if_true, Option.isSome_some, if_neg hne, if_neg (Ne.symm hne)] at hk hl
  obtain ⟨w', hw'⟩ := Option.isSome_iff_exists.1 hk.symm
  obtain ⟨v', hv'⟩ := Option.isSome_iff_exists.1 hl
  have hlk : l < k := (List.pairwise_cons.1 hn).1 _ (Dictionary.mem_of_get? hw')
  have hkl : k < l := (List.pairwise_cons.1 hm).1 _ (Dictionary.mem_of_get? hv')
  exact asymm_of (· < ·) hlk hkl

/-- Objects with ascending names are equal if they give equal values for every name. -/
theorem sameMembers_of_forall {ms ns : List (String × Value)} (hm : Dictionary.Sorted ms)
    (hn : Dictionary.Sorted ns)
    (h : ∀ key, SameOption (Dictionary.get? ms key) (Dictionary.get? ns key)) :
    sameMembers ms ns = true := by
  induction ms generalizing ns with
  | nil =>
    cases ns with
    | nil => rfl
    | cons f ns => simpa [Dictionary.get?] using (h f.1).isSome_eq
  | cons e ms ih =>
    cases ns with
    | nil => simpa [Dictionary.get?] using (h e.1).isSome_eq
    | cons f ns =>
      obtain ⟨k, v⟩ := e
      obtain ⟨l, w⟩ := f
      obtain rfl := head_name_eq hm hn h
      have hvw : v.same w = true := by simpa [Dictionary.get?, SameOption] using h k
      have hrest : sameMembers ms ns = true := by
        refine ih (List.pairwise_cons.1 hm).2 (List.pairwise_cons.1 hn).2 fun key => ?_
        by_cases hk : k = key
        · subst hk
          rw [get?_tail_eq_none hm, get?_tail_eq_none hn]
          trivial
        · simpa [Dictionary.get?, hk] using h key
      simp [sameMembers, hvw, hrest]

theorem sameMembers_iff {ms ns : List (String × Value)} (hm : Dictionary.Sorted ms)
    (hn : Dictionary.Sorted ns) :
    sameMembers ms ns = true ↔
      ∀ key, SameOption (Dictionary.get? ms key) (Dictionary.get? ns key) :=
  ⟨sameOption_get?, sameMembers_of_forall hm hn⟩

/-! ## Objects -/

theorem eq_object_of_isObject {v : Value} (h : v.isObject = true) : ∃ ms, v = object ms := by
  cases v with
  | object ms => exact ⟨ms, rfl⟩
  | scalar s => cases h
  | array xs => cases h

/-! ## Well-formed objects -/

theorem wellFormed_empty : empty.WellFormed :=
  ⟨List.Pairwise.nil, trivial⟩

theorem wellFormedMembers_iff {ms : List (String × Value)} :
    WellFormedMembers ms ↔ ∀ e ∈ ms, e.2.WellFormed := by
  induction ms with
  | nil => simp [WellFormedMembers]
  | cons e ms ih =>
    obtain ⟨k, v⟩ := e
    simp [WellFormedMembers, ih]

theorem wellFormed_object_iff {ms : List (String × Value)} :
    (object ms).WellFormed ↔
      Dictionary.Sorted ms ∧ ∀ key v, Dictionary.get? ms key = some v → v.WellFormed := by
  simp only [WellFormed, wellFormedMembers_iff]
  refine and_congr_right fun hm => ⟨fun h key v hv => h _ (Dictionary.mem_of_get? hv), fun h e he => ?_⟩
  exact h e.1 e.2 (Dictionary.get?_of_mem hm he)

instance (ms : List (String × Value)) : Decidable (Dictionary.Sorted ms) :=
  inferInstanceAs (Decidable (List.Pairwise _ ms))

mutual

/-- Whether a tree is well-formed can be computed. -/
def decideWellFormed : ∀ v : Value, Decidable v.WellFormed
  | scalar _ => .isTrue trivial
  | array xs => decideWellFormedItems xs
  | object ms =>
    have := decideWellFormedMembers ms
    inferInstanceAs (Decidable (Dictionary.Sorted ms ∧ WellFormedMembers ms))

/-- Whether every item is well-formed can be computed. -/
def decideWellFormedItems : ∀ xs : List Value, Decidable (WellFormedItems xs)
  | [] => .isTrue trivial
  | x :: xs =>
    have := decideWellFormed x
    have := decideWellFormedItems xs
    inferInstanceAs (Decidable (x.WellFormed ∧ WellFormedItems xs))

/-- Whether the value of every member is well-formed can be computed. -/
def decideWellFormedMembers : ∀ ms : List (String × Value), Decidable (WellFormedMembers ms)
  | [] => .isTrue trivial
  | (_, x) :: ms =>
    have := decideWellFormed x
    have := decideWellFormedMembers ms
    inferInstanceAs (Decidable (x.WellFormed ∧ WellFormedMembers ms))

end

instance : DecidablePred WellFormed := decideWellFormed

end Value

end ConfigUpdate
