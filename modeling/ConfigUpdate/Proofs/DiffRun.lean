import ConfigUpdate.Proofs.Difference
import ConfigUpdate.Proofs.ObjectStep

/-!
# The moves of a difference can be made in any order

Whatever moves of a difference have been made, in whatever order, the tree is the blend at their places,
and each of the others finds there what it expects: `step_blend`. So every order of a difference is a run,
and the run ends in the target: `runAll_perm_diff`.
-/

namespace ConfigUpdate

/-- The places and one more. -/
def withPlace (taken : Pointer → Bool) (place : Pointer) : Pointer → Bool :=
  fun p => taken p || p == place

/-- All places but those of the moves that are still to come. -/
def placesBut (rest : List Move) : Pointer → Bool :=
  fun p => !(rest.map (·.path)).contains p

section Places

variable (taken : Pointer → Bool)

theorem takenBelow_withPlace (key : String) (place : Pointer) :
    Value.takenBelow (withPlace taken (.key key :: place)) key
      = withPlace (Value.takenBelow taken key) place := by
  funext p
  simp [Value.takenBelow, withPlace]

theorem takenBelow_withPlace_of_ne {key key' : String} (h : key ≠ key') (place : Pointer) :
    Value.takenBelow (withPlace taken (.key key :: place)) key' = Value.takenBelow taken key' := by
  funext p
  simp [Value.takenBelow, withPlace, Ne.symm h]

end Places

theorem withPlace_placesBut {m : Move} {rest : List Move} (h : m.path ∉ rest.map (·.path)) :
    withPlace (placesBut (m :: rest)) m.path = placesBut rest := by
  funext p
  by_cases hp : p = m.path
  · subst hp
    simpa [withPlace, placesBut] using h
  · simp [withPlace, placesBut, hp]

/-- A move of the whole tree replaces it. -/
theorem kind_of_mem_diff_root {v w : Value} (hv : v.WellFormed) (hw : w.WellFormed) {m : Move}
    (h : m ∈ diff v w) (hp : m.path = []) : m.kind = .replace := by
  rw [diff_of_not_objects (not_objects_of_mem_diff_root hv hw h hp)] at h
  split at h
  · cases h
  · rw [List.mem_singleton.1 h]
    rfl

namespace Move

/-- Making a move of the member of an object is making it in the member. -/
theorem slotStep_under {m : Move} (h : m.path = [] → m.kind = .replace) (key : String) (c : Value) :
    (m.under key).slotStep (some c) = (m.step c).toOption.map some := by
  cases hp : m.path with
  | cons s p =>
    have hpath : (m.under key).path = .key key :: s :: p := by rw [path_under, hp]
    have hbelow : (m.under key).below = m := by simp [below, under]
    simp only [slotStep, hpath, Option.bind_some, hbelow]
  | nil =>
    have hpath : (m.under key).path = [.key key] := by rw [path_under, hp]
    have hkind : (m.under key).kind = .replace := h hp
    have hrun : (m.run c).toOption = some (m.value.getD .empty) := by
      simp [run, h hp, Value.replaceAt, Value.alterFrom, hp]
    have hcheck : (m.check c).toOption = if (m.under key).expects (some c) then some () else none := by
      cases hpre : m.precondition with
      | absent =>
        simp [check, hpre, hp, Pointer.parent?, checkVacant, Value.hasNode, Value.resolve,
          Value.resolveFrom, expects, under]
      | equals v =>
        rw [toOption_check_equals hpre, hp]
        simp [Value.resolve, Value.resolveFrom, expects, under, hpre]
    rw [toOption_step, hcheck, hrun]
    simp only [slotStep, hpath, change, hkind]
    cases (m.under key).expects (some c) <;> rfl

end Move

/-- A move for a member makes the change to the member that the blend has at its place. -/
theorem slotStep_blendSlot {taken : Pointer → Bool} {a b : Option Value} {m : Move} (key : String)
    (hm : m ∈ diffSlot a b) (ht : taken m.path = false)
    (hboth : ∀ v w, a = some v → b = some w → (m.path = [] → m.kind = .replace) ∧
      m.step (Value.blend taken v w) = .ok (Value.blend (withPlace taken m.path) v w)) :
    (m.under key).slotStep (Value.blendSlot taken a b)
      = some (Value.blendSlot (withPlace taken m.path) a b) := by
  cases a with
  | none =>
    cases b with
    | none => cases hm
    | some w =>
      obtain rfl := List.mem_singleton.1 hm
      have hroot : taken [] = false := ht
      simp [Value.blendSlot, hroot, withPlace, Move.add, Move.under, Move.slotStep, Move.expects,
        Move.change]
  | some v =>
    cases b with
    | none =>
      obtain rfl := List.mem_singleton.1 hm
      have hroot : taken [] = false := ht
      have hprior : (v == v) = true := Value.same_refl v
      simp [Value.blendSlot, hroot, withPlace, Move.remove, Move.under, Move.slotStep, Move.expects,
        Move.change, hprior]
    | some w =>
      obtain ⟨hroot, hstep⟩ := hboth v w rfl rfl
      simp only [Value.blendSlot]
      rw [Move.slotStep_under hroot, hstep]
      rfl

/-- Wherever the other moves of a difference have been made or not, a move of it finds what it expects,
and it makes the change at its place. -/
theorem step_blend {taken : Pointer → Bool} {v w : Value} (hv : v.WellFormed) (hw : w.WellFormed)
    {m : Move} (hm : m ∈ diff v w) (ht : taken m.path = false) :
    m.step (Value.blend taken v w) = .ok (Value.blend (withPlace taken m.path) v w) := by
  induction v, w using Value.induct₂ generalizing taken m with
  | objects ms ns ih =>
    obtain ⟨hms, hvs⟩ := Value.wellFormed_object_iff.1 hv
    obtain ⟨hns, hws⟩ := Value.wellFormed_object_iff.1 hw
    obtain ⟨key, m', hm', rfl⟩ := (mem_diff_object hms hns).1 hm
    -- The move is one of a member, so it is enough to know what it makes of the member.
    have hslot : (m'.under key).slotStep (Dictionary.get? (Value.blendObject taken ms ns) key)
        = some (Value.blendSlot (withPlace (Value.takenBelow taken key) m'.path)
          (Dictionary.get? ms key) (Dictionary.get? ns key)) := by
      rw [Value.get?_blendObject]
      refine slotStep_blendSlot key hm' ht fun a b ha hb => ?_
      rw [ha, hb] at hm'
      exact ⟨kind_of_mem_diff_root (hvs key a ha) (hws key b hb) hm',
        ih key a b ha hb (hvs key a ha) (hws key b hb) hm' ht⟩
    rw [← toOption_eq_some_iff, Value.blend_object,
      Move.toOption_step_object (Move.path_under key m'), Step.name, hslot, Value.blend_object]
    simp only [Option.map_some, Option.some.injEq, Value.object.injEq]
    have hsorted : Dictionary.Sorted (Value.blendObject taken ms ns) := Value.sorted_blendObject hms
    refine Dictionary.ext_of_sorted (Dictionary.sorted_put hsorted _ _)
      (Value.sorted_blendObject hms) fun key' => ?_
    rw [Dictionary.get?_put hsorted, Value.get?_blendObject, Value.get?_blendObject]
    split
    · rename_i hkey
      subst hkey
      rw [Move.path_under, takenBelow_withPlace]
    · rename_i hkey
      rw [Move.path_under, takenBelow_withPlace_of_ne taken hkey]
  | other v w h =>
    rw [diff_of_not_objects h] at hm
    split at hm
    · cases hm
    · rename_i hne
      obtain rfl := List.mem_singleton.1 hm
      have hroot : taken [] = false := ht
      have hprior : (v == v) = true := Value.same_refl v
      rw [Value.blend_of_not_objects h, Value.blend_of_not_objects h, ← toOption_eq_some_iff]
      simp [hne, hroot, withPlace, Move.replace, Move.step, Move.check, Move.run, Value.resolve,
        Value.resolveFrom, Value.replaceAt, Value.alterFrom, hprior]

/-- Moves of a difference, made one after another from the blend at all other places. -/
theorem run_blend {v w : Value} (hv : v.WellFormed) (hw : w.WellFormed) {rest : List Move}
    (hrest : ∀ m ∈ rest, m ∈ diff v w) (hnodup : (rest.map (·.path)).Nodup) :
    Move.Run Oracle.acceptAll (Value.blend (placesBut rest) v w) rest
      (Value.blend (placesBut []) v w) := by
  induction rest with
  | nil => exact .nil _
  | cons m rest ih =>
    obtain ⟨hm, hnodup⟩ := List.nodup_cons.1 hnodup
    have ht : placesBut (m :: rest) m.path = false := by simp [placesBut]
    have hstep := step_blend hv hw (hrest m List.mem_cons_self) ht
    rw [withPlace_placesBut hm] at hstep
    obtain ⟨hcheck, hrun⟩ := Move.step_eq_ok_iff.1 hstep
    exact .cons hcheck hrun rfl (ih (fun m' hm' => hrest m' (List.mem_cons_of_mem _ hm')) hnodup)

/-- Before any move of a difference has been made, the blend is the current tree. -/
theorem blend_placesBut_diff {v w : Value} (hv : v.WellFormed) (hw : w.WellFormed) {order : List Move}
    (h : order.Perm (diff v w)) : Value.blend (placesBut order) v w = v := by
  have hnone : Value.blend (placesBut order) v w = Value.blend (fun _ => false) v w := by
    refine blend_congr hv hw fun m hm => ?_
    have hplace : m.path ∈ order.map (·.path) := List.mem_map_of_mem (h.mem_iff.2 hm)
    simpa [placesBut] using hplace
  rw [hnone, Value.blend_none hv]

/-- The moves of a difference can be made in any order, and always lead to the target. -/
theorem runAll_perm_diff (current target : Value) (hc : current.WellFormed) (ht : target.WellFormed)
    (order : List Move) (h : order.Perm (diff current target)) :
    ∃ last, Move.runAll current order = .ok last ∧ last.same target = true := by
  have hnodup : (order.map (·.path)).Nodup :=
    ((h.map _).nodup_iff).2 (nodup_places_diff hc ht)
  have hrun := run_blend hc ht (fun m hm => h.mem_iff.1 hm) hnodup
  rw [blend_placesBut_diff hc ht h] at hrun
  refine ⟨_, Move.runAll_eq_ok_iff.2 hrun, ?_⟩
  have hall : Value.blend (placesBut []) current target = current.settled target :=
    blend_congr hc ht fun m _ => by simp [placesBut]
  rw [hall]
  exact Value.same_settled hc ht

/-! ## Moves made last to first -/

/-- A port and a VLAN. -/
def oldVlan : Value :=
  .object [
    ("PORT", .object [("Ethernet0", .object [("mtu", .ofString "9100")])]),
    ("VLAN", .object [("Vlan10", .empty)])]

/-- The port with another field, and another VLAN. -/
def newVlan : Value :=
  .object [
    ("PORT", .object [("Ethernet0", .object [("mtu", .ofString "9000")])]),
    ("VLAN", .object [("Vlan20", .empty)])]

/-- The moves from the one to the other, the last one first. -/
def lastFirst : List Move := [
  .add (.ofNames ["VLAN", "Vlan20"]) .empty,
  .remove (.ofNames ["VLAN", "Vlan10"]) .empty,
  .replace (.ofNames ["PORT", "Ethernet0", "mtu"]) (.ofString "9100") (.ofString "9000")]

theorem runAll_lastFirst :
    oldVlan.WellFormed ∧ newVlan.WellFormed ∧ lastFirst.Perm (diff oldVlan newVlan) ∧
      ∃ last, Move.runAll oldVlan lastFirst = .ok last ∧ last.same newVlan = true := by
  have hreverse : diff oldVlan newVlan = lastFirst.reverse := rfl
  have hperm : lastFirst.Perm (diff oldVlan newVlan) := hreverse ▸ (List.reverse_perm _).symm
  have hold : oldVlan.WellFormed := by decide
  have hnew : newVlan.WellFormed := by decide
  exact ⟨hold, hnew, hperm, runAll_perm_diff oldVlan newVlan hold hnew lastFirst hperm⟩

end ConfigUpdate
