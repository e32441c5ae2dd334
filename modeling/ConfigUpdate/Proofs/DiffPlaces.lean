import ConfigUpdate.Proofs.BlendPlaces

/-!
# Where a difference makes its moves

The moves of a difference are made at the highest places where the two trees differ and are not both objects.
Each one says what the two trees have at its place (`exists_place`), and every place where they differ so has a
move at it or above it (`exists_move_above`). Inside an object that both trees have, that is a move of the very
member (`path_eq_of_bothObjects`).
-/

namespace ConfigUpdate

namespace Value

/-- Both trees have an object at a place. -/
def BothObjects (v w : Value) (ks : List String) : Prop :=
  ∃ ms ns, v.memberAt ks = some (.object ms) ∧ w.memberAt ks = some (.object ns)

/-- Two trees differ at a place, and not because they have different objects there. -/
structure Differ (v w : Value) (ks : List String) : Prop where
  unequal : ¬ SameOption (v.memberAt ks) (w.memberAt ks)
  not_objects : ¬ v.BothObjects w ks

theorem Differ.of_not_object {v w : Value} {ks : List String}
    (h : ¬ SameOption (v.memberAt ks) (w.memberAt ks)) (hw : ∀ ns, w.memberAt ks ≠ some (.object ns)) :
    v.Differ w ks :=
  ⟨h, fun ⟨_, ns, _, hns⟩ => hw ns hns⟩

theorem memberAt_append (v : Value) (ks ls : List String) :
    v.memberAt (ks ++ ls) = (v.memberAt ks).bind fun c => c.memberAt ls := by
  induction ks generalizing v with
  | nil => rfl
  | cons k ks ih =>
    simp only [List.cons_append, memberAt]
    cases v.get? k with
    | none => rfl
    | some c => exact ih c

/-- Above a member there is an object. -/
theorem exists_object_of_memberAt {v x : Value} {ks : List String} {k : String} {ls : List String}
    (h : v.memberAt (ks ++ k :: ls) = some x) : ∃ ms, v.memberAt ks = some (.object ms) := by
  rw [memberAt_append] at h
  obtain ⟨c, hc, hx⟩ := Option.bind_eq_some_iff.1 h
  obtain ⟨d, hd, -⟩ := Option.bind_eq_some_iff.1 hx
  have hobject : c.isObject = true := by
    by_contra hnot
    rw [get?_eq_none_of_not_object (by simpa using hnot)] at hd
    cases hd
  obtain ⟨ms, rfl⟩ := eq_object_of_isObject hobject
  exact ⟨ms, hc⟩

/-- At and above an object there are objects. -/
theorem exists_object_of_prefix {v : Value} {ks ls : List String} {ms : List (String × Value)}
    (h : v.memberAt ls = some (.object ms)) (hp : ks <+: ls) : ∃ ms, v.memberAt ks = some (.object ms) := by
  obtain ⟨rest, rfl⟩ := hp
  cases rest with
  | nil => exact ⟨ms, by rwa [List.append_nil] at h⟩
  | cons k rest => exact exists_object_of_memberAt h

theorem BothObjects.of_prefix {v w : Value} {ks ls : List String} (h : v.BothObjects w ls) (hp : ks <+: ls) :
    v.BothObjects w ks := by
  obtain ⟨ms, ns, hms, hns⟩ := h
  obtain ⟨ms', hms'⟩ := exists_object_of_prefix hms hp
  obtain ⟨ns', hns'⟩ := exists_object_of_prefix hns hp
  exact ⟨ms', ns', hms', hns'⟩

end Value

theorem ofNames_prefix_iff {ks ls : List String} :
    Pointer.ofNames ks <+: Pointer.ofNames ls ↔ ks <+: ls := by
  constructor
  · rintro ⟨p, hp⟩
    obtain ⟨ks', rest, hls, hks', -⟩ := List.map_eq_append_iff.1 hp.symm
    have hks : ks' = ks := List.map_injective_iff.2 (fun _ _ h => Step.key.inj h) hks'
    exact ⟨rest, by rw [hls, hks]⟩
  · exact fun h => h.map _

variable {v w : Value} {m : Move}

/-- A move of a difference expects what the first tree has at its place and carries what the second one has
there, and the trees differ there. -/
theorem exists_place (hv : v.WellFormed) (hw : w.WellFormed) (hm : m ∈ diff v w) :
    ∃ ks, m.path = Pointer.ofNames ks ∧ v.memberAt ks = m.prior? ∧ w.memberAt ks = m.value ∧
      (m.kind = .remove ↔ m.value = none) ∧ v.Differ w ks := by
  induction v, w using Value.induct₂ generalizing m with
  | objects ms ns ih =>
    obtain ⟨hms, hvs⟩ := Value.wellFormed_object_iff.1 hv
    obtain ⟨hns, hws⟩ := Value.wellFormed_object_iff.1 hw
    obtain ⟨key, m', hm', rfl⟩ := (mem_diff_object hms hns).1 hm
    obtain ⟨b, ha, hb, rfl⟩ | ⟨a, ha, hb, rfl⟩ | ⟨a, b, ha, hb, hm'⟩ := mem_diffSlot_cases hm'
    · refine ⟨[key], rfl, ?_, ?_, by simp [Move.under, Move.add], ?_, ?_⟩ <;>
        simp [Value.BothObjects, Value.memberAt, Value.get?, ha, hb, Move.under, Move.add, Move.prior?,
          Value.SameOption]
    · refine ⟨[key], rfl, ?_, ?_, by simp [Move.under, Move.remove], ?_, ?_⟩ <;>
        simp [Value.BothObjects, Value.memberAt, Value.get?, ha, hb, Move.under, Move.remove, Move.prior?,
          Value.SameOption]
    · obtain ⟨ks, hp, hprior, hvalue, hkind, hdiffer⟩ := ih key a b ha hb (hvs key a ha) (hws key b hb) hm'
      have hv' : (Value.object ms).memberAt (key :: ks) = a.memberAt ks := by
        simp [Value.memberAt, Value.get?, ha]
      have hw' : (Value.object ns).memberAt (key :: ks) = b.memberAt ks := by
        simp [Value.memberAt, Value.get?, hb]
      refine ⟨key :: ks, ?_, by rw [hv']; exact hprior, by rw [hw']; exact hvalue, hkind, ?_, ?_⟩
      · rw [Move.path_under, hp]
        rfl
      · rw [hv', hw']
        exact hdiffer.unequal
      · rw [Value.BothObjects, hv', hw']
        exact hdiffer.not_objects
  | other v w ho =>
    rw [diff_of_not_objects ho] at hm
    split at hm
    · cases hm
    · rename_i hne
      obtain rfl := List.mem_singleton.1 hm
      refine ⟨[], rfl, rfl, rfl, by simp [Move.replace], hne, ?_⟩
      rintro ⟨ms, ns, hms, hns⟩
      cases hms
      cases hns
      cases ho

/-- Where two trees differ, and not as two objects, a move is made there or above. -/
theorem exists_move_above (hv : v.WellFormed) (hw : w.WellFormed) {ks : List String} (h : v.Differ w ks) :
    ∃ m ∈ diff v w, m.path <+: Pointer.ofNames ks := by
  by_contra hnone
  have hkept := kept_memberAt_settled hv hw fun m hm hp => hnone ⟨m, hm, hp⟩
  have hsame := Value.sameOption_memberAt (Value.same_settled hv hw) ks
  obtain heq | ⟨ms, ns, hms, hns⟩ := hkept
  · rw [heq] at hsame
    exact h.unequal hsame
  · rw [hns] at hsame
    cases hw' : w.memberAt ks with
    | none =>
      rw [hw'] at hsame
      exact hsame
    | some x =>
      rw [hw'] at hsame
      have hobject : x.isObject = true := by
        rw [← Value.same_isObject hsame]
        rfl
      obtain ⟨ns', rfl⟩ := Value.eq_object_of_isObject hobject
      exact h.not_objects ⟨ms, ns', hms, hw'⟩

/-- A move at or above a member of an object that both trees have is made at the member. -/
theorem path_eq_of_bothObjects (hv : v.WellFormed) (hw : w.WellFormed) (hm : m ∈ diff v w) {ks : List String}
    {key : String} (hobjects : v.BothObjects w ks) (hp : m.path <+: Pointer.ofNames (ks ++ [key])) :
    m.path = Pointer.ofNames (ks ++ [key]) := by
  obtain ⟨above, hpath, -, -, -, hdiffer⟩ := exists_place hv hw hm
  rw [hpath, ofNames_prefix_iff] at hp
  obtain heq | habove := List.prefix_concat_iff.1 hp
  · rw [hpath, heq]
  · exact absurd (hobjects.of_prefix habove) hdiffer.not_objects

/-- A member that only the first one of two objects has is removed by a move of its own. -/
theorem exists_removal (hv : v.WellFormed) (hw : w.WellFormed) {ks : List String} {key : String} {x : Value}
    {ns : List (String × Value)} (hx : v.memberAt (ks ++ [key]) = some x)
    (hnone : w.memberAt (ks ++ [key]) = none) (hns : w.memberAt ks = some (.object ns)) :
    ∃ m ∈ diff v w, m.kind = .remove ∧ m.path = Pointer.ofNames (ks ++ [key]) := by
  have hdiffer : v.Differ w (ks ++ [key]) := by
    apply Value.Differ.of_not_object
    · rw [hx, hnone]
      exact not_false
    · rw [hnone]
      exact nofun
  obtain ⟨ms, hms⟩ := Value.exists_object_of_memberAt hx
  obtain ⟨m, hm, hp⟩ := exists_move_above hv hw hdiffer
  have hpath := path_eq_of_bothObjects hv hw hm ⟨ms, ns, hms, hns⟩ hp
  obtain ⟨place, hplace, -, hvalue, hkind, -⟩ := exists_place hv hw hm
  have heq : place = ks ++ [key] := by
    rw [hplace] at hpath
    exact List.map_injective_iff.2 (fun _ _ h => Step.key.inj h) hpath
  rw [heq, hnone] at hvalue
  exact ⟨m, hm, hkind.2 hvalue.symm, hpath⟩

end ConfigUpdate
