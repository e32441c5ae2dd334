import ConfigUpdate.Proofs.ScopeNames
import ConfigUpdate.Proofs.SortedDictionary
import ConfigUpdate.Proofs.WellFormedEdits

/-!
# The slots of a node

A step leads to a slot of a node: that of a member of an object, which may be empty, or that of an item of an
array. Two steps with one slot have one name (`Value.SameSlot.name_eq`), however they spell it; what is put
into a slot is not seen by the steps to other ones (`Value.child_setSlot_of_not_sameSlot`), and slots can be filled
in any order (`Value.setSlot_comm`).
-/

namespace ConfigUpdate

/-! ## Positions -/

theorem Text.toString_injective {m n : Nat} (h : toString m = toString n) : m = n := by
  have hdigits : Nat.toDigits 10 m = Nat.toDigits 10 n := by
    simpa [Nat.repr_eq_ofList_toDigits] using congrArg String.toList h
  rw [← Nat.ofDigitChars_ten_toDigits (n := m), hdigits, Nat.ofDigitChars_ten_toDigits]

theorem Text.eq_toString_of_index? {bound i : Nat} {s : String} (h : index? bound s = some i) :
    s = toString i := by
  unfold index? at h
  simp only at h
  split at h
  · cases h
  · rename_i hzero
    obtain ⟨n, hn, h⟩ := Option.bind_eq_some_iff.1 h
    split at h
    · cases h
      obtain ⟨zeros, hs⟩ := digits?_eq_some_iff.1 hn
      have hpos : 0 < (Nat.toDigits 10 i).length := List.length_pos_iff.2 Nat.toDigits_ne_nil
      -- A numeral that starts with a zero is no position, unless it is that zero.
      obtain rfl : zeros = 0 := by
        by_contra hne
        obtain ⟨z, rfl⟩ := Nat.exists_eq_succ_of_ne_zero hne
        refine hzero ⟨?_, ?_⟩
        · rw [hs, numeral, List.length_append, List.length_replicate]
          omega
        · rw [hs, numeral, List.replicate_succ]
          rfl
      rw [← String.toList_inj, hs]
      simp [numeral, Nat.repr_eq_ofList_toDigits]
    · cases h

namespace Step

variable {s : Step} {atEnd : Bool} {length i : Nat} {location : String}

/-- The step is a spelling of a position. -/
def Spells : Step → Nat → Prop
  | index j, i => j = i
  | key k, i => Text.index? positionBound k = some i

theorem Spells.name_eq (h : s.Spells i) : s.name = toString i := by
  cases s with
  | index j => exact congrArg toString h
  | key k => exact Text.eq_toString_of_index? h

theorem Spells.ne_end (h : s.Spells i) : s ≠ .key "-" := by
  rintro rfl
  have hnone : Text.index? positionBound "-" = none := by decide
  exact nomatch hnone.symm.trans h

theorem position_eq_ok_iff : s.position length atEnd location = .ok i ↔
    (atEnd = true ∧ s = .key "-" ∧ i = length) ∨
      (s.Spells i ∧ i < if atEnd = true then length + 1 else length) := by
  have hrange (limit j : Nat) : (if j < limit then Except.ok j
      else .error (ResolveError.indexOutOfRange location j length)) = .ok i ↔ j = i ∧ i < limit := by
    split
    · rename_i hlt
      exact ⟨fun h => by cases h; exact ⟨rfl, hlt⟩, fun h => congrArg Except.ok h.1⟩
    · rename_i hge
      exact iff_of_false (fun h => by cases h) fun h => hge (h.1 ▸ h.2)
  cases s with
  | index j =>
    rw [position, hrange]
    simp [Spells]
  | key k =>
    rw [position]
    by_cases hend : atEnd = true ∧ k = "-"
    · obtain ⟨rfl, rfl⟩ := hend
      have hspells : ¬ (key "-").Spells i := fun h => h.ne_end rfl
      simp [hspells, eq_comm]
    · have hnot : ¬ (atEnd && k == "-") = true := by simpa using hend
      have hnot' : ¬ (atEnd = true ∧ key k = .key "-" ∧ i = length) := fun h => hend ⟨h.1, key.inj h.2.1⟩
      rw [if_neg hnot, or_iff_right hnot', Spells]
      cases Text.index? positionBound k with
      | none => exact iff_of_false (fun h => by cases h) fun h => by cases h.1
      | some j =>
        rw [Option.some.injEq]
        exact hrange _ j

theorem position_inside (h : s.position length false location = .ok i) : s.Spells i ∧ i < length := by
  simpa using position_eq_ok_iff.1 h

theorem position_atEnd_le (h : s.position length true location = .ok i) : i ≤ length := by
  obtain ⟨-, -, rfl⟩ | ⟨-, hi⟩ := position_eq_ok_iff.1 h
  · exact Nat.le_refl _
  · exact Nat.lt_succ_iff.1 (by simpa using hi)

/-- The item of an array of a length for which a step stands. -/
def item? (s : Step) (length : Nat) : Option Nat :=
  (s.position length false "").toOption

theorem item?_eq_some_iff : s.item? length = some i ↔ s.Spells i ∧ i < length := by
  rw [item?, toOption_eq_some_iff, position_eq_ok_iff]
  simp

theorem position_of_item? (h : s.item? length = some i) (location : String) :
    s.position length false location = .ok i :=
  position_eq_ok_iff.2 (.inr (item?_eq_some_iff.1 h))

theorem position_of_item?_eq_none (h : s.item? length = none) (location : String) :
    ∃ e, s.position length false location = .error e := by
  rw [item?, s.toOption_position length false "" location] at h
  cases hposition : s.position length false location with
  | error e => exact ⟨e, rfl⟩
  | ok i =>
    rw [hposition] at h
    cases h

end Step

namespace Value

variable {v w c c' : Value} {ms : List (String × Value)} {xs : List Value} {s t : Step} {i : Nat}

/-! ## One slot -/

/-- What stands in the slot to which a step leads. -/
def slot (v : Value) (s : Step) : Option Value :=
  (v.child s "").toOption

/-- The node with a slot filled or, for none, emptied. Only members can be taken away so; an item leaves no empty
slot behind. -/
def setSlot : Value → Step → Option Value → Value
  | v, s, some c => v.setChild s c
  | object ms, s, none => object (Dictionary.erase ms s.name)
  | v, _, none => v

theorem slot_eq_some_iff {location : String} : v.slot s = some c ↔ v.child s location = .ok c := by
  rw [slot, v.toOption_child s "" location, toOption_eq_some_iff]

theorem wellFormed_slot (hv : v.WellFormed) (h : v.slot s = some c) : c.WellFormed := by
  have hchild : v.child s "" = .ok c := slot_eq_some_iff.1 h
  exact wellFormed_child hv hchild

theorem slot_object (ms : List (String × Value)) (s : Step) : (object ms).slot s = Dictionary.get? ms s.name := by
  simp only [slot, child]
  cases Dictionary.get? ms s.name <;> rfl

theorem setSlot_object (ms : List (String × Value)) (s : Step) (o : Option Value) :
    (object ms).setSlot s o = object (Dictionary.put ms s.name o) := by
  cases o <;> rfl

theorem child_array (h : s.item? xs.length = some i) (location : String) :
    ∃ c, xs[i]? = some c ∧ (array xs).child s location = .ok c := by
  have hlt := (Step.item?_eq_some_iff.1 h).2
  refine ⟨xs[i], List.getElem?_eq_getElem hlt, ?_⟩
  simp [child, Step.position_of_item? h, bind, Except.bind, hlt]

theorem child_array_of_none (h : s.item? xs.length = none) (location : String) :
    ∃ e, (array xs).child s location = .error e ∧
      ∀ ys : List Value, ys.length = xs.length → (array ys).child s location = .error e := by
  obtain ⟨e, he⟩ := Step.position_of_item?_eq_none h location
  refine ⟨e, ?_, fun ys hys => ?_⟩
  · simp [child, he, bind, Except.bind]
  · simp [child, hys, he, bind, Except.bind]

theorem setSlot_array (h : s.item? xs.length = some i) (c : Value) :
    (array xs).setSlot s (some c) = array (xs.set i c) := by
  simp only [setSlot, setChild, Step.position_of_item? h]

@[simp] theorem setSlot_array_empty (xs : List Value) (s : Step) : (array xs).setSlot s none = array xs := rfl

theorem setSlot_array_of_none (h : s.item? xs.length = none) (o : Option Value) :
    (array xs).setSlot s o = array xs := by
  obtain ⟨e, he⟩ := Step.position_of_item?_eq_none h ""
  cases o with
  | none => rfl
  | some c => simp only [setSlot, setChild, he]

theorem setSlot_scalar (x : Scalar) (s : Step) (o : Option Value) : (scalar x).setSlot s o = scalar x := by
  cases o <;> rfl

/-- The slots of an array stay where they are. -/
theorem exists_setSlot_array (xs : List Value) (s : Step) (o : Option Value) :
    ∃ ys : List Value, (array xs).setSlot s o = array ys ∧ ys.length = xs.length := by
  cases hs : s.item? xs.length with
  | none => exact ⟨xs, setSlot_array_of_none hs o, rfl⟩
  | some i =>
    cases o with
    | none => exact ⟨xs, rfl, rfl⟩
    | some c => exact ⟨xs.set i c, setSlot_array hs c, List.length_set⟩

/-- A slot that has been filled anew has the new content. -/
theorem slot_setSlot (h : v.slot s = some c) (c' : Value) : (v.setSlot s (some c')).slot s = some c' := by
  cases v with
  | scalar x => cases h
  | object ms => rw [setSlot_object, slot_object, Dictionary.put, Dictionary.get?_insert, if_pos rfl]
  | array xs =>
    cases hs : s.item? xs.length with
    | none =>
      obtain ⟨e, he, -⟩ := child_array_of_none hs ""
      rw [slot, he] at h
      cases h
    | some i =>
      rw [setSlot_array hs]
      have hset : s.item? (xs.set i c').length = some i := by rw [List.length_set, hs]
      obtain ⟨d, hd, hchild⟩ := child_array hset ""
      rw [List.getElem?_set_self (Step.item?_eq_some_iff.1 hs).2] at hd
      cases hd
      exact slot_eq_some_iff.2 hchild

/-- The second of two contents stays. -/
theorem setSlot_setSlot (v : Value) (s : Step) (c c' : Value) :
    (v.setSlot s (some c)).setSlot s (some c') = v.setSlot s (some c') := by
  cases v with
  | scalar x => rfl
  | object ms => simp only [setSlot_object, Dictionary.put, Dictionary.insert_insert]
  | array xs =>
    cases hs : s.item? xs.length with
    | none => rw [setSlot_array_of_none hs, setSlot_array_of_none hs]
    | some i =>
      have hset : s.item? (xs.set i c).length = some i := by rw [List.length_set, hs]
      rw [setSlot_array hs, setSlot_array hset, setSlot_array hs, List.set_set]

/-- What stands in a slot can be put there. -/
theorem setSlot_slot (hv : v.WellFormed) (s : Step) : v.setSlot s (v.slot s) = v := by
  cases v with
  | scalar x => exact setSlot_scalar x s _
  | object ms =>
    rw [slot_object, setSlot_object]
    refine congrArg object (Dictionary.ext_of_sorted (Dictionary.sorted_put hv.1 _ _) hv.1 fun key => ?_)
    rw [Dictionary.get?_put hv.1]
    split
    · rename_i hkey
      rw [hkey]
    · rfl
  | array xs =>
    cases hs : s.item? xs.length with
    | none => exact setSlot_array_of_none hs _
    | some i =>
      obtain ⟨c, hc, hchild⟩ := child_array hs ""
      rw [slot_eq_some_iff.2 hchild, setSlot_array hs]
      obtain ⟨hlt, rfl⟩ := List.getElem?_eq_some_iff.1 hc
      exact congrArg array (List.set_getElem_self hlt)

/-! ## Two slots -/

/-- Two steps lead to the same slot of a node. -/
def SameSlot : Value → Step → Step → Prop
  | object _, s, t => s.name = t.name
  | array xs, s, t => ∃ i, s.item? xs.length = some i ∧ t.item? xs.length = some i
  | scalar _, _, _ => False

theorem SameSlot.symm (h : v.SameSlot s t) : v.SameSlot t s := by
  cases v with
  | scalar x => exact h
  | object ms => exact Eq.symm h
  | array xs =>
    obtain ⟨i, hs, ht⟩ := h
    exact ⟨i, ht, hs⟩

theorem SameSlot.name_eq (h : v.SameSlot s t) : s.name = t.name := by
  cases v with
  | scalar x => exact h.elim
  | object ms => exact h
  | array xs =>
    obtain ⟨i, hs, ht⟩ := h
    rw [(Step.item?_eq_some_iff.1 hs).1.name_eq, (Step.item?_eq_some_iff.1 ht).1.name_eq]

theorem SameSlot.child_eq (h : v.SameSlot s t) (location : String) : v.child s location = v.child t location := by
  cases v with
  | scalar x => exact h.elim
  | object ms =>
    have hname : s.name = t.name := h
    simp only [child, hname]
  | array xs =>
    obtain ⟨i, hs, ht⟩ := h
    simp only [child, Step.position_of_item? hs, Step.position_of_item? ht]

theorem SameSlot.slot_eq (h : v.SameSlot s t) : v.slot s = v.slot t :=
  congrArg Except.toOption (h.child_eq "")

theorem SameSlot.setSlot_eq (h : v.SameSlot s t) (o : Option Value) : v.setSlot s o = v.setSlot t o := by
  cases v with
  | scalar x => exact h.elim
  | object ms =>
    have hname : s.name = t.name := h
    rw [setSlot_object, setSlot_object, hname]
  | array xs =>
    obtain ⟨i, hs, ht⟩ := h
    cases o with
    | none => rfl
    | some c => rw [setSlot_array hs, setSlot_array ht]

/-- Filling a slot does not change which steps lead to it. -/
theorem SameSlot.setSlot (h : v.SameSlot s t) (r : Step) (o : Option Value) : (v.setSlot r o).SameSlot s t := by
  cases v with
  | scalar x => exact h.elim
  | object ms =>
    rw [setSlot_object]
    exact h
  | array xs =>
    obtain ⟨ys, hys, hlength⟩ := exists_setSlot_array xs r o
    obtain ⟨i, hs, ht⟩ := h
    rw [hys]
    exact ⟨i, by rw [hlength, hs], by rw [hlength, ht]⟩

/-- Steps of one name that both lead to a child lead to one slot. -/
theorem sameSlot_of_name_eq (hname : s.name = t.name) (hs : v.slot s = some c) (ht : v.slot t = some c') :
    v.SameSlot s t := by
  cases v with
  | scalar x => cases hs
  | object ms => exact hname
  | array xs =>
    have hitem {r : Step} {d : Value} (hr : (array xs).slot r = some d) : ∃ i, r.item? xs.length = some i := by
      cases hi : r.item? xs.length with
      | some i => exact ⟨i, rfl⟩
      | none =>
        obtain ⟨e, he, -⟩ := child_array_of_none hi ""
        rw [slot, he] at hr
        cases hr
    obtain ⟨i, hi⟩ := hitem hs
    obtain ⟨j, hj⟩ := hitem ht
    rw [(Step.item?_eq_some_iff.1 hi).1.name_eq, (Step.item?_eq_some_iff.1 hj).1.name_eq] at hname
    obtain rfl : i = j := Text.toString_injective hname
    exact ⟨i, hi, hj⟩

/-- What is put into a slot is not seen by a step to another one. -/
theorem child_setSlot_of_not_sameSlot (hv : v.WellFormed) (h : ¬ v.SameSlot s t) (o : Option Value)
    (location : String) : (v.setSlot s o).child t location = v.child t location := by
  cases v with
  | scalar x => rw [setSlot_scalar]
  | object ms =>
    have hget : Dictionary.get? (Dictionary.put ms s.name o) t.name = Dictionary.get? ms t.name := by
      rw [Dictionary.get?_put hv.1]
      exact if_neg h
    rw [setSlot_object]
    simp only [child, hget]
  | array xs =>
    cases ht : t.item? xs.length with
    | none =>
      obtain ⟨ys, hys, hlength⟩ := exists_setSlot_array xs s o
      obtain ⟨e, he, hsame⟩ := child_array_of_none ht location
      rw [hys, hsame ys hlength, he]
    | some j =>
      cases hs : s.item? xs.length with
      | none => rw [setSlot_array_of_none hs]
      | some i =>
        have hne : i ≠ j := fun hij => h ⟨i, hs, hij ▸ ht⟩
        cases o with
        | none => rfl
        | some c =>
          have ht' : t.item? (xs.set i c).length = some j := by rw [List.length_set, ht]
          obtain ⟨d, hd, hchild⟩ := child_array ht location
          obtain ⟨d', hd', hchild'⟩ := child_array ht' location
          rw [List.getElem?_set_ne hne, hd] at hd'
          rw [setSlot_array hs, hchild, hchild', Option.some.inj hd']

/-- Two slots can be filled in any order. -/
theorem setSlot_comm (hv : v.WellFormed) (h : ¬ v.SameSlot s t) (a b : Option Value) :
    (v.setSlot s a).setSlot t b = (v.setSlot t b).setSlot s a := by
  cases v with
  | scalar x => simp only [setSlot_scalar]
  | object ms =>
    simp only [setSlot_object]
    have hs := Dictionary.sorted_put hv.1 s.name a
    have ht := Dictionary.sorted_put hv.1 t.name b
    have hne : s.name ≠ t.name := h
    refine congrArg object (Dictionary.ext_of_sorted (Dictionary.sorted_put hs _ _)
      (Dictionary.sorted_put ht _ _) fun key => ?_)
    rw [Dictionary.get?_put hs, Dictionary.get?_put hv.1, Dictionary.get?_put ht, Dictionary.get?_put hv.1]
    by_cases hkey : s.name = key
    · rw [if_pos hkey, if_pos hkey, if_neg fun heq => hne (hkey.trans heq.symm)]
    · rw [if_neg hkey, if_neg hkey]
  | array xs =>
    cases hs : s.item? xs.length with
    | none =>
      obtain ⟨ys, hys, hlength⟩ := exists_setSlot_array xs t b
      rw [setSlot_array_of_none hs, hys, setSlot_array_of_none (by rw [hlength, hs])]
    | some i =>
      cases ht : t.item? xs.length with
      | none =>
        obtain ⟨ys, hys, hlength⟩ := exists_setSlot_array xs s a
        rw [setSlot_array_of_none ht, hys, setSlot_array_of_none (by rw [hlength, ht])]
      | some j =>
        have hne : i ≠ j := fun hij => h ⟨i, hs, hij ▸ ht⟩
        cases a with
        | none =>
          obtain ⟨ys, hys, -⟩ := exists_setSlot_array xs t b
          rw [setSlot_array_empty, hys, setSlot_array_empty]
        | some c =>
          cases b with
          | none => rw [setSlot_array hs, setSlot_array_empty, setSlot_array_empty, setSlot_array hs]
          | some d =>
            have hs' : s.item? (xs.set j d).length = some i := by rw [List.length_set, hs]
            have ht' : t.item? (xs.set i c).length = some j := by rw [List.length_set, ht]
            rw [setSlot_array hs, setSlot_array ht, setSlot_array ht', setSlot_array hs']
            exact congrArg array (List.set_comm c d hne)

end Value

end ConfigUpdate
