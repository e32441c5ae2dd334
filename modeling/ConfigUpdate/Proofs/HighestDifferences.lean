import ConfigUpdate.Proofs.Difference
import ConfigUpdate.Proofs.MoveCongruence

/-!
# A difference tells the highest differences

Two trees differ at a place if only one of them has a node there, or if their nodes there are not equal. The
moves of a difference are made at the highest such places: each one says what the two trees have at its place
(`Value.HighestDifference`), no place is at or below another one (`Move.Apart`), and wherever the trees differ
there is a move at, above or below that place (`exists_move_of_differsAt`).
-/

namespace ConfigUpdate

namespace Value

/-- Both trees have an object at a place. -/
def ObjectsAt (v w : Value) (place : Pointer) : Prop :=
  ∃ ms ns, v.resolve place = .ok (.object ms) ∧ w.resolve place = .ok (.object ns)

/-- Two trees differ at a place, since only one has a node there or their nodes are not equal. -/
def DiffersAt (v w : Value) (place : Pointer) : Prop :=
  ¬ SameOption (v.resolve place).toOption (w.resolve place).toOption

/-- A move that tells how two trees differ at its place, of which they do not both have a part. -/
inductive HighestDifference (v w : Value) : Move → Prop
  | add {parent : Pointer} {key : String} {new : Value} :
    v.ObjectsAt w parent → v.hasNode (parent ++ [.key key]) = false →
      w.resolve (parent ++ [.key key]) = .ok new →
        HighestDifference v w (.add (parent ++ [.key key]) new)
  | remove {parent : Pointer} {key : String} {prior : Value} :
    v.ObjectsAt w parent → w.hasNode (parent ++ [.key key]) = false →
      v.resolve (parent ++ [.key key]) = .ok prior →
        HighestDifference v w (.remove (parent ++ [.key key]) prior)
  | replace {place : Pointer} {prior new : Value} :
    v.resolve place = .ok prior → w.resolve place = .ok new → prior.same new = false →
      (prior.isObject && new.isObject) = false → HighestDifference v w (.replace place prior new)

variable {ms ns : List (String × Value)} {key : String} {a b : Value} {place : Pointer}

theorem resolve_member (ha : Dictionary.get? ms key = some a) {x : Value} (h : a.resolve place = .ok x) :
    (object ms).resolve (.key key :: place) = .ok x := by
  rw [← toOption_eq_some_iff] at h ⊢
  rwa [toOption_resolve_cons, Step.name, ha, Option.bind_some]

theorem hasNode_member (ha : Dictionary.get? ms key = some a) :
    (object ms).hasNode (.key key :: place) = a.hasNode place := by
  rw [hasNode_eq_isSome, hasNode_eq_isSome, toOption_resolve_cons, Step.name, ha, Option.bind_some]

theorem hasNode_of_get?_eq_none (ha : Dictionary.get? ms key = none) :
    (object ms).hasNode [.key key] = false := by
  rw [hasNode_eq_isSome, toOption_resolve_cons, Step.name, ha]
  rfl

theorem ObjectsAt.member (ha : Dictionary.get? ms key = some a) (hb : Dictionary.get? ns key = some b)
    (h : a.ObjectsAt b place) : (object ms).ObjectsAt (object ns) (.key key :: place) := by
  obtain ⟨as, bs, has, hbs⟩ := h
  exact ⟨as, bs, resolve_member ha has, resolve_member hb hbs⟩

/-- What is so in a member is so in the object, below the name of the member. -/
theorem HighestDifference.member {m : Move} (ha : Dictionary.get? ms key = some a)
    (hb : Dictionary.get? ns key = some b) (h : a.HighestDifference b m) :
    (object ms).HighestDifference (object ns) (m.under key) := by
  cases h with
  | add hobjects hnone hnew =>
    refine .add (hobjects.member ha hb) ?_ (resolve_member hb hnew)
    rw [List.cons_append, hasNode_member ha, hnone]
  | remove hobjects hnone hprior =>
    refine .remove (hobjects.member ha hb) ?_ (resolve_member ha hprior)
    rw [List.cons_append, hasNode_member hb, hnone]
  | replace hprior hnew hdiffer hkinds =>
    exact .replace (resolve_member ha hprior) (resolve_member hb hnew) hdiffer hkinds

end Value

open Value

variable {v w : Value}

/-- Every move of a difference tells how the trees differ at its place. -/
theorem highestDifference_of_mem_diff (hv : v.WellFormed) (hw : w.WellFormed) {m : Move} (hm : m ∈ diff v w) :
    v.HighestDifference w m := by
  induction v, w using Value.induct₂ generalizing m with
  | objects ms ns ih =>
    obtain ⟨hms, hvs⟩ := wellFormed_object_iff.1 hv
    obtain ⟨hns, hws⟩ := wellFormed_object_iff.1 hw
    have hobjects : (object ms).ObjectsAt (object ns) [] := ⟨ms, ns, rfl, rfl⟩
    obtain ⟨key, m', hm', rfl⟩ := (mem_diff_object hms hns).1 hm
    obtain ⟨b, ha, hb, rfl⟩ | ⟨a, ha, hb, rfl⟩ | ⟨a, b, ha, hb, hm'⟩ := mem_diffSlot_cases hm'
    · exact .add hobjects (hasNode_of_get?_eq_none ha) (resolve_member hb rfl)
    · exact .remove hobjects (hasNode_of_get?_eq_none hb) (resolve_member ha rfl)
    · exact (ih key a b ha hb (hvs key a ha) (hws key b hb) hm').member ha hb
  | other v w ho =>
    rw [diff_of_not_objects ho] at hm
    split at hm
    · cases hm
    · rename_i hne
      obtain rfl := List.mem_singleton.1 hm
      exact .replace rfl rfl (Bool.eq_false_of_not_eq_true hne) ho

/-! ## Wherever the trees differ -/

/-- Only equal trees have no difference. -/
theorem same_of_diff_eq_nil (hv : v.WellFormed) (hw : w.WellFormed) (h : diff v w = []) :
    v.same w = true := by
  induction v, w using Value.induct₂ with
  | objects ms ns ih =>
    obtain ⟨hms, hvs⟩ := wellFormed_object_iff.1 hv
    obtain ⟨hns, hws⟩ := wellFormed_object_iff.1 hw
    refine sameMembers_of_forall hms hns fun key => ?_
    have hslot : diffSlot (Dictionary.get? ms key) (Dictionary.get? ns key) = [] := by
      refine List.eq_nil_iff_forall_not_mem.2 fun m hm => ?_
      have hmem : m.under key ∈ diff (.object ms) (.object ns) := (mem_diff_object hms hns).2 ⟨key, m, hm, rfl⟩
      rw [h] at hmem
      cases hmem
    cases ha : Dictionary.get? ms key with
    | none =>
      cases hb : Dictionary.get? ns key with
      | none => trivial
      | some b =>
        rw [ha, hb] at hslot
        cases hslot
    | some a =>
      cases hb : Dictionary.get? ns key with
      | none =>
        rw [ha, hb] at hslot
        cases hslot
      | some b =>
        rw [ha, hb] at hslot
        exact ih key a b ha hb (hvs key a ha) (hws key b hb) hslot
  | other v w ho =>
    rw [diff_of_not_objects ho] at h
    split at h
    · rename_i hsame
      exact hsame
    · cases h

/-- Where two trees differ, a move of their difference is made there, above or below. -/
theorem exists_move_of_differsAt (hv : v.WellFormed) (hw : w.WellFormed) {place : Pointer}
    (h : v.DiffersAt w place) :
    ∃ m ∈ diff v w, place.startsWith m.path = true ∨ m.path.startsWith place = true := by
  induction v, w using Value.induct₂ generalizing place with
  | objects ms ns ih =>
    obtain ⟨hms, hvs⟩ := wellFormed_object_iff.1 hv
    obtain ⟨hns, hws⟩ := wellFormed_object_iff.1 hw
    cases place with
    | nil =>
      obtain ⟨m, hm⟩ := List.exists_mem_of_ne_nil _ fun hnil => h (same_of_diff_eq_nil hv hw hnil)
      exact ⟨m, hm, .inr rfl⟩
    | cons s p =>
      -- A move for the member to which the first step leads is one of the object.
      have hmember : ∀ m ∈ diffSlot (Dictionary.get? ms s.name) (Dictionary.get? ns s.name),
          Pointer.startsWith p m.path = true ∨ m.path.startsWith p = true →
            ∃ m ∈ diff (.object ms) (.object ns),
              Pointer.startsWith (s :: p) m.path = true ∨ m.path.startsWith (s :: p) = true := by
        intro m hm hplace
        refine ⟨m.under s.name, (mem_diff_object hms hns).2 ⟨s.name, m, hm, rfl⟩, ?_⟩
        simpa [startsWith_cons, Step.name] using hplace
      rw [DiffersAt, toOption_resolve_cons, toOption_resolve_cons] at h
      cases ha : Dictionary.get? ms s.name with
      | none =>
        cases hb : Dictionary.get? ns s.name with
        | none =>
          rw [ha, hb] at h
          exact absurd trivial h
        | some b =>
          rw [ha, hb] at hmember
          exact hmember _ List.mem_cons_self (.inl rfl)
      | some a =>
        cases hb : Dictionary.get? ns s.name with
        | none =>
          rw [ha, hb] at hmember
          exact hmember _ List.mem_cons_self (.inl rfl)
        | some b =>
          rw [ha, hb] at h hmember
          obtain ⟨m, hm, hplace⟩ := ih s.name a b ha hb (hvs _ a ha) (hws _ b hb) h
          exact hmember m hm hplace
  | other v w ho =>
    rw [diff_of_not_objects ho]
    split
    · rename_i hsame
      exact absurd (sameOption_resolveFrom hsame "" place) h
    · exact ⟨_, List.mem_cons_self, .inl rfl⟩

/-- A difference tells the highest differences of two trees and nothing else: every move tells how they differ
at its place, the places are apart from one another, and wherever the trees differ there is a move at, above or
below that place. So there is no move only if the trees are equal. -/
theorem diff_exact (current target : Value) (hc : current.WellFormed) (ht : target.WellFormed) :
    (diff current target).Pairwise Move.Apart ∧
      (∀ m ∈ diff current target, current.HighestDifference target m) ∧
      (∀ place, current.DiffersAt target place →
        ∃ m ∈ diff current target, place.startsWith m.path = true ∨ m.path.startsWith place = true) ∧
      (diff current target = [] ↔ current.same target = true) :=
  ⟨pairwise_apart_diff hc ht, fun _ => highestDifference_of_mem_diff hc ht,
    fun _ => exists_move_of_differsAt hc ht, same_of_diff_eq_nil hc ht, diff_eq_nil_of_same⟩

/-- A port with two lanes and error correction. -/
def correctedPort : Value :=
  .object [("PORT", .object [("Ethernet0", .object [
    ("fec", .ofString "rs"), ("lanes", .array [.ofString "1", .ofString "2"])])])]

/-- The port with another second lane and without error correction, beside a table of VLANs. -/
def rewiredPort : Value :=
  .object [("PORT", .object [("Ethernet0", .object [
    ("lanes", .array [.ofString "1", .ofString "3"])])]), ("VLAN", .empty)]

/-- One item differs below the place of the move that replaces all lanes. -/
theorem diff_exact_rewiredPort :
    correctedPort.WellFormed ∧ rewiredPort.WellFormed ∧
      (diff correctedPort rewiredPort).map (·.path.text) =
        ["/PORT/Ethernet0/fec", "/PORT/Ethernet0/lanes", "/VLAN"] ∧
      (∀ m ∈ diff correctedPort rewiredPort, correctedPort.HighestDifference rewiredPort m) ∧
      ∃ m ∈ diff correctedPort rewiredPort,
        Pointer.startsWith [.key "PORT", .key "Ethernet0", .key "lanes", .index 1] m.path = true ∨
          m.path.startsWith [.key "PORT", .key "Ethernet0", .key "lanes", .index 1] = true := by
  have hc : correctedPort.WellFormed := by decide
  have ht : rewiredPort.WellFormed := by decide
  obtain ⟨-, hhighest, hplaces, -⟩ := diff_exact correctedPort rewiredPort hc ht
  have hitem : ¬ (Value.ofString "2").same (.ofString "3") = true := by decide
  exact ⟨hc, ht, rfl, hhighest, hplaces _ hitem⟩

end ConfigUpdate
