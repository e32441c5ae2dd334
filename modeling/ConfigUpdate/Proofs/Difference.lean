import ConfigUpdate.Proofs.Blend

/-!
# Differences member by member

A difference of two objects is put together from the differences of their members, each moved below the
name of the member: `diff_object`. From this follow the two facts on which all orders of a difference
rest: no place of a move is at or below that of another one, and a blend asks about the places of its moves
only.
-/

namespace ConfigUpdate

/-- The move in an object that has the tree as its member. -/
def Move.under (key : String) (m : Move) : Move :=
  { m with path := .key key :: m.path }

@[simp] theorem Move.path_under (key : String) (m : Move) : (m.under key).path = .key key :: m.path :=
  rfl

/-- The moves that turn a member into another one, where either may be missing. -/
def diffSlot : Option Value → Option Value → List Move
  | some v, some w => diff v w
  | some v, none => [.remove [] v]
  | none, some w => [.add [] w]
  | none, none => []

/-- The names of the first object, followed by those that only the second one has. -/
def memberNames (ms ns : List (String × Value)) : List String :=
  ms.map Prod.fst ++ (ns.filter fun n => !Dictionary.contains ms n.1).map Prod.fst

/-! ## Places are relative -/

mutual

theorem diffAt_cons (key : String) : ∀ (place : Pointer) (v w : Value),
    diffAt (.key key :: place) v w = (diffAt place v w).map (Move.under key)
  | place, .object ms, .object ns => by
    unfold diffAt
    split
    · rfl
    · rw [diffMembers_cons key place ms ns, List.map_append, List.map_map]
      rfl
  | place, .scalar s, w => by
    unfold diffAt
    split <;> rfl
  | place, .array xs, w => by
    unfold diffAt
    split <;> rfl
  | place, .object ms, .scalar t => by
    unfold diffAt
    split <;> rfl
  | place, .object ms, .array ys => by
    unfold diffAt
    split <;> rfl

theorem diffMembers_cons (key : String) : ∀ (place : Pointer) (ms ns : List (String × Value)),
    diffMembers (.key key :: place) ms ns = (diffMembers place ms ns).map (Move.under key)
  | place, [], ns => rfl
  | place, (k, v) :: ms, ns => by
    unfold diffMembers
    rw [List.map_append, diffMembers_cons key place ms ns]
    congr 1
    cases Dictionary.get? ns k with
    | none => rfl
    | some w => exact diffAt_cons key (place ++ [.key k]) v w

end

variable {ms ns : List (String × Value)} {v w : Value}

theorem diff_of_not_objects (h : (v.isObject && w.isObject) = false) :
    diff v w = if v == w then [] else [.replace [] v w] := by
  cases v <;> cases w <;> first | rfl | simp [Value.isObject, Value.members?] at h

/-- Equal trees have no difference. -/
theorem diff_eq_nil_of_same (h : v.same w = true) : diff v w = [] := by
  cases v with
  | object ms =>
    cases w with
    | object ns => exact if_pos h
    | scalar t => exact if_pos h
    | array ys => exact if_pos h
  | scalar s => exact if_pos h
  | array xs => exact if_pos h

theorem diffSlot_eq_nil_of_same {a b : Option Value} (h : Value.SameOption a b) : diffSlot a b = [] := by
  cases a <;> cases b <;> first | rfl | exact h.elim | exact diff_eq_nil_of_same h

/-- A move for a member adds it, removes it, or is one of the difference of what it was and what it is. -/
theorem mem_diffSlot_cases {a b : Option Value} {m : Move} (h : m ∈ diffSlot a b) :
    (∃ w, a = none ∧ b = some w ∧ m = .add [] w) ∨ (∃ v, a = some v ∧ b = none ∧ m = .remove [] v) ∨
      ∃ v w, a = some v ∧ b = some w ∧ m ∈ diff v w := by
  cases a with
  | none =>
    cases b with
    | none => cases h
    | some w => exact .inl ⟨w, rfl, rfl, List.mem_singleton.1 h⟩
  | some v =>
    cases b with
    | none => exact .inr (.inl ⟨v, rfl, rfl, List.mem_singleton.1 h⟩)
    | some w => exact .inr (.inr ⟨v, w, rfl, rfl, h⟩)

/-! ## Objects -/

/-- The moves for the members of an object, read off the look-ups in it. -/
theorem diffMembers_eq_flatMap {part : List (String × Value)}
    (h : ∀ e ∈ part, Dictionary.get? ms e.1 = some e.2) :
    diffMembers [] part ns = (part.map Prod.fst).flatMap fun key =>
      (diffSlot (Dictionary.get? ms key) (Dictionary.get? ns key)).map (Move.under key) := by
  induction part with
  | nil => rfl
  | cons e part ih =>
    obtain ⟨k, v⟩ := e
    have hk : Dictionary.get? ms k = some v := h (k, v) List.mem_cons_self
    unfold diffMembers
    rw [List.map_cons, List.flatMap_cons, ih fun e he => h e (List.mem_cons_of_mem _ he), hk]
    congr 1
    cases Dictionary.get? ns k with
    | none => rfl
    | some w => exact diffAt_cons k [] v w

/-- The moves for the members that are added, read off the look-ups. -/
theorem additions_eq_flatMap {part : List (String × Value)}
    (h : ∀ e ∈ part, Dictionary.get? ms e.1 = none ∧ Dictionary.get? ns e.1 = some e.2) :
    (part.map fun n => Move.add ([] ++ [.key n.1]) n.2) = (part.map Prod.fst).flatMap fun key =>
      (diffSlot (Dictionary.get? ms key) (Dictionary.get? ns key)).map (Move.under key) := by
  induction part with
  | nil => rfl
  | cons e part ih =>
    obtain ⟨hm, hn⟩ := h e List.mem_cons_self
    rw [List.map_cons, List.map_cons, List.flatMap_cons,
      ih fun e he => h e (List.mem_cons_of_mem _ he), hm, hn]
    rfl

/-- The difference of two objects consists of the differences of their members. -/
theorem diff_object (hm : Dictionary.Sorted ms) (hn : Dictionary.Sorted ns) :
    diff (.object ms) (.object ns) = (memberNames ms ns).flatMap fun key =>
      (diffSlot (Dictionary.get? ms key) (Dictionary.get? ns key)).map (Move.under key) := by
  by_cases hsame : Value.sameMembers ms ns = true
  · have hslots := Value.sameOption_get? hsame
    rw [diff_eq_nil_of_same (v := .object ms) (w := .object ns) hsame, eq_comm,
      List.flatMap_eq_nil_iff]
    intro key _
    rw [diffSlot_eq_nil_of_same (hslots key)]
    rfl
  · have hkept : ∀ e ∈ ms, Dictionary.get? ms e.1 = some e.2 := fun e he =>
      Dictionary.get?_of_mem hm he
    have hadded : ∀ e ∈ ns.filter fun n => !Dictionary.contains ms n.1,
        Dictionary.get? ms e.1 = none ∧ Dictionary.get? ns e.1 = some e.2 := by
      intro e he
      obtain ⟨hmem, hnot⟩ := List.mem_filter.1 he
      refine ⟨?_, Dictionary.get?_of_mem hn hmem⟩
      simpa [Dictionary.contains] using hnot
    rw [memberNames, List.flatMap_append, ← diffMembers_eq_flatMap hkept,
      ← additions_eq_flatMap hadded]
    exact if_neg hsame

theorem mem_diff_object (hm : Dictionary.Sorted ms) (hn : Dictionary.Sorted ns) {m : Move} :
    m ∈ diff (.object ms) (.object ns) ↔ ∃ key, ∃ m' ∈
      diffSlot (Dictionary.get? ms key) (Dictionary.get? ns key), m = m'.under key := by
  rw [diff_object hm hn]
  simp only [List.mem_flatMap, List.mem_map]
  constructor
  · rintro ⟨key, -, m', hm', rfl⟩
    exact ⟨key, m', hm', rfl⟩
  · rintro ⟨key, m', hm', rfl⟩
    refine ⟨key, ?_, m', hm', rfl⟩
    cases ha : Dictionary.get? ms key with
    | some v =>
      exact List.mem_append_left _ (List.mem_map_of_mem (Dictionary.mem_of_get? ha))
    | none =>
      cases hb : Dictionary.get? ns key with
      | none => simp [ha, hb, diffSlot] at hm'
      | some w =>
        have hmem : (key, w) ∈ ns.filter fun n => !Dictionary.contains ms n.1 :=
          List.mem_filter.2 ⟨Dictionary.mem_of_get? hb, by simp [Dictionary.contains, ha]⟩
        exact List.mem_append_right _ (List.mem_map_of_mem hmem)

/-! ## Places -/

/-- A move of the whole tree is made where the trees are not both objects. -/
theorem not_objects_of_mem_diff_root (hv : v.WellFormed) (hw : w.WellFormed) {m : Move}
    (h : m ∈ diff v w) (hp : m.path = []) : (v.isObject && w.isObject) = false := by
  cases v with
  | object ms =>
    cases w with
    | object ns =>
      obtain ⟨key, m', -, rfl⟩ := (mem_diff_object hv.1 hw.1).1 h
      cases hp
    | scalar t => rfl
    | array ys => rfl
  | scalar s => rfl
  | array xs => rfl

theorem nodup_memberNames (hm : Dictionary.Sorted ms) (hn : Dictionary.Sorted ns) :
    (memberNames ms ns).Nodup := by
  have hrest : Dictionary.Sorted (ns.filter fun n => !Dictionary.contains ms n.1) :=
    hn.sublist List.filter_sublist
  refine List.nodup_append.2 ⟨hm.nodup_keys, hrest.nodup_keys, ?_⟩
  rintro a ha b hb rfl
  obtain ⟨e, he, rfl⟩ := List.mem_map.1 ha
  obtain ⟨f, hf, hfe⟩ := List.mem_map.1 hb
  have hnot := (List.mem_filter.1 hf).2
  rw [hfe, Dictionary.contains, Dictionary.get?_of_mem hm he] at hnot
  simp at hnot

/-- Of the places of two moves none is at or below the other one. -/
def Move.Apart (m m' : Move) : Prop :=
  m.path.startsWith m'.path = false ∧ m'.path.startsWith m.path = false

theorem startsWith_cons (s t : Step) (p q : Pointer) :
    Pointer.startsWith (s :: p) (t :: q) = (t.name == s.name && p.startsWith q) := rfl

theorem Move.Apart.under {m m' : Move} (h : m.Apart m') (key : String) :
    (m.under key).Apart (m'.under key) := by
  simpa [Apart, startsWith_cons] using h

theorem Move.apart_of_ne {key key' : String} (h : key ≠ key') (m m' : Move) :
    (m.under key).Apart (m'.under key') := by
  simp [Apart, startsWith_cons, Step.name, h, h.symm]

/-- The places of a difference are apart from one another. -/
theorem pairwise_apart_diff (hv : v.WellFormed) (hw : w.WellFormed) : (diff v w).Pairwise Move.Apart := by
  induction v, w using Value.induct₂ with
  | objects ms ns ih =>
    obtain ⟨hms, hvs⟩ := Value.wellFormed_object_iff.1 hv
    obtain ⟨hns, hws⟩ := Value.wellFormed_object_iff.1 hw
    rw [diff_object hms hns]
    refine List.pairwise_flatMap.2 ⟨fun key _ => ?_, ?_⟩
    · have hslot : (diffSlot (Dictionary.get? ms key) (Dictionary.get? ns key)).Pairwise Move.Apart := by
        cases ha : Dictionary.get? ms key with
        | none => cases Dictionary.get? ns key <;> simp [diffSlot]
        | some a =>
          cases hb : Dictionary.get? ns key with
          | none => simp [diffSlot]
          | some b => exact ih key a b ha hb (hvs key a ha) (hws key b hb)
      exact List.pairwise_map.2 (hslot.imp fun h => h.under key)
    · refine (nodup_memberNames hms hns).imp fun {key key'} hne => ?_
      intro m hm m' hm'
      obtain ⟨n, -, rfl⟩ := List.mem_map.1 hm
      obtain ⟨n', -, rfl⟩ := List.mem_map.1 hm'
      exact Move.apart_of_ne hne n n'
  | other v w h =>
    rw [diff_of_not_objects h]
    split <;> simp

/-- No two moves of a difference have the same place. -/
theorem nodup_places_diff (hv : v.WellFormed) (hw : w.WellFormed) :
    ((diff v w).map (·.path)).Nodup := by
  refine List.pairwise_map.2 ((pairwise_apart_diff hv hw).imp fun {m m'} happart heq => ?_)
  have hself : m'.path.startsWith m'.path = true := List.isPrefixOf_iff_prefix.2 (List.prefix_refl _)
  rw [Move.Apart, heq, hself] at happart
  cases happart.1

/-- A blend asks about the places of the difference only. -/
theorem blend_congr {taken taken' : Pointer → Bool} (hv : v.WellFormed) (hw : w.WellFormed)
    (h : ∀ m ∈ diff v w, taken m.path = taken' m.path) :
    Value.blend taken v w = Value.blend taken' v w := by
  induction v, w using Value.induct₂ generalizing taken taken' with
  | objects ms ns ih =>
    obtain ⟨hm, hms⟩ := Value.wellFormed_object_iff.1 hv
    obtain ⟨hn, hns⟩ := Value.wellFormed_object_iff.1 hw
    have hslot : ∀ key, ∀ m ∈ diffSlot (Dictionary.get? ms key) (Dictionary.get? ns key),
        Value.takenBelow taken key m.path = Value.takenBelow taken' key m.path := fun key m hmem =>
      h (m.under key) ((mem_diff_object hm hn).2 ⟨key, m, hmem, rfl⟩)
    rw [Value.blend_object, Value.blend_object]
    congr 1
    refine Dictionary.ext_of_sorted (Value.sorted_blendObject hm) (Value.sorted_blendObject hm)
      fun key => ?_
    have hkey := hslot key
    rw [Value.get?_blendObject, Value.get?_blendObject]
    cases ha : Dictionary.get? ms key with
    | none =>
      cases hb : Dictionary.get? ns key with
      | none => simp [Value.blendSlot]
      | some b =>
        rw [ha, hb] at hkey
        have hplace := hkey _ List.mem_cons_self
        exact congrArg (fun t : Bool => if t then _ else _) hplace
    | some a =>
      cases hb : Dictionary.get? ns key with
      | none =>
        rw [ha, hb] at hkey
        have hplace := hkey _ List.mem_cons_self
        exact congrArg (fun t : Bool => if t then _ else _) hplace
      | some b =>
        rw [ha, hb] at hkey
        exact congrArg some (ih key a b ha hb (hms key a ha) (hns key b hb) hkey)
  | other v w ho =>
    rw [Value.blend_of_not_objects ho, Value.blend_of_not_objects ho]
    split
    · rfl
    · rename_i hne
      have hroot : taken [] = taken' [] :=
        h (.replace [] v w) (by rw [diff_of_not_objects ho, if_neg hne]; simp)
      rw [hroot]

end ConfigUpdate
