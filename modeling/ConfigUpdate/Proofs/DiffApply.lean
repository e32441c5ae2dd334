import ConfigUpdate.Proofs.DiffRun
import ConfigUpdate.Proofs.Execution
import ConfigUpdate.Proofs.SlicedApply

/-!
# The moves of a difference in a store

On the way from one object to another the moves of their difference lead below tables that are there, so
a store in memory makes all of them, in any order, and then holds the target: `apply_memory_diff`. A target that
is no object leaves it without tables, so in any case it has those of the target: `apply_memory_tables`.
-/

namespace ConfigUpdate

section Difference

variable {v w : Value} {m : Move}

/-- A move below the root is one between objects. -/
theorem exists_objects_of_mem_diff (h : m ∈ diff v w) (hp : m.path ≠ []) :
    ∃ ms ns, v = .object ms ∧ w = .object ns := by
  cases ho : v.isObject && w.isObject with
  | true =>
    obtain ⟨hv, hw⟩ := Bool.and_eq_true_iff.1 ho
    obtain ⟨ms, rfl⟩ := Value.eq_object_of_isObject hv
    obtain ⟨ns, rfl⟩ := Value.eq_object_of_isObject hw
    exact ⟨ms, ns, rfl, rfl⟩
  | false =>
    rw [diff_of_not_objects ho] at h
    split at h
    · cases h
    · rw [List.mem_singleton.1 h] at hp
      exact absurd rfl hp

/-- A move below a member is made where both objects have it. -/
theorem exists_members_of_mem_diffSlot {a b : Option Value} (h : m ∈ diffSlot a b) (hp : m.path ≠ []) :
    ∃ as bs, a = some (.object as) ∧ b = some (.object bs) := by
  obtain ⟨w, -, -, rfl⟩ | ⟨v, -, -, rfl⟩ | ⟨v, w, ha, hb, h⟩ := mem_diffSlot_cases h
  · exact absurd rfl hp
  · exact absurd rfl hp
  · obtain ⟨as, bs, rfl, rfl⟩ := exists_objects_of_mem_diff h hp
    exact ⟨as, bs, ha, hb⟩

/-- A move below a table finds it, whatever other moves of the difference have been made. -/
theorem exists_table_of_mem_diff (hv : v.WellFormed) (hw : w.WellFormed) (h : m ∈ diff v w)
    {s s' : Step} {p : Pointer} (hp : m.path = s :: s' :: p) (taken : Pointer → Bool) :
    ∃ ms es, Value.blend taken v w = .object ms ∧ Dictionary.get? ms s.name = some (.object es) := by
  obtain ⟨ms, ns, rfl, rfl⟩ := exists_objects_of_mem_diff h (by simp [hp])
  obtain ⟨key, m', hm', rfl⟩ := (mem_diff_object hv.1 hw.1).1 h
  obtain ⟨rfl, hp'⟩ := List.cons.inj hp
  obtain ⟨as, bs, ha, hb⟩ := exists_members_of_mem_diffSlot hm' (by simp [hp'])
  refine ⟨Value.blendObject taken ms ns, Value.blendObject (Value.takenBelow taken key) as bs,
    Value.blend_object, ?_⟩
  rw [Step.name, Value.get?_blendObject, ha, hb]
  rfl

theorem meetsTable_of_mem_diff (hv : v.WellFormed) (hw : w.WellFormed) (h : m ∈ diff v w)
    (taken : Pointer → Bool) : m.MeetsTable (Value.blend taken v w) := by
  intro s s' p hp table htable
  obtain ⟨ms, es, hblend, hes⟩ := exists_table_of_mem_diff hv hw h hp taken
  rw [hblend, Value.get?, hes, Option.some.injEq] at htable
  rw [← htable]
  rfl

theorem ground_of_mem_diff (hv : v.WellFormed) (hw : w.WellFormed) (h : m ∈ diff v w)
    (taken : Pointer → Bool) : m.ground (Value.blend taken v w) = Value.blend taken v w := by
  match hp : m.path with
  | s :: s' :: p =>
    obtain ⟨ms, es, hblend, hes⟩ := exists_table_of_mem_diff hv hw h hp taken
    rw [hblend]
    simp [Move.ground, hp, Dictionary.contains, hes]
  | [s] => cases Value.blend taken v w <;> simp [Move.ground, hp]
  | [] => cases Value.blend taken v w <;> simp [Move.ground, hp]

/-- Moves of a difference of objects fit the tables that they find, and none of them fails. -/
theorem wholeRun_diff (hv : v.WellFormed) (hw : w.WellFormed) {rest : List Move}
    (hpaths : ∀ m ∈ rest, m.path ≠ []) (hrest : ∀ m ∈ rest, m ∈ diff v w)
    (hnodup : (rest.map (·.path)).Nodup) :
    FitsTables (Value.blend (placesBut rest) v w) rest ∧
      wholeRun (Value.blend (placesBut rest) v w) rest = (none, Value.blend (placesBut []) v w) := by
  induction rest with
  | nil => exact ⟨trivial, rfl⟩
  | cons m rest ih =>
    obtain ⟨hm, hnodup⟩ := List.nodup_cons.1 hnodup
    obtain ⟨hpath, hpaths⟩ := List.forall_mem_cons.1 hpaths
    obtain ⟨hmem, hrest⟩ := List.forall_mem_cons.1 hrest
    have ht : placesBut (m :: rest) m.path = false := by simp [placesBut]
    have hstep := step_blend hv hw hmem ht
    rw [withPlace_placesBut hm] at hstep
    obtain ⟨hfits, hrun⟩ := ih hpaths hrest hnodup
    have hground := ground_of_mem_diff hv hw hmem (placesBut (m :: rest))
    refine ⟨⟨meetsTable_of_mem_diff hv hw hmem _, fun hp => absurd hp hpath, ?_⟩, ?_⟩
    · intro after hafter
      rw [hground, hstep] at hafter
      cases hafter
      exact hfits
    · simp only [wholeRun, hground, hstep, hrun, Option.map_none]

end Difference

/-! ## Stores in memory -/

/-- A tree that is no object has no tables. -/
theorem Tables.ofTree_of_not_object {w : Value} (h : w.isObject = false) : Tables.ofTree w = [] := by
  have hnone : w.members? = none := by simpa [Value.isObject] using h
  rw [ofTree, hnone]
  rfl

/-- Moves below the root are made in memory as in the whole tree, and leave that tree. -/
theorem makeMoves_memory {moves : List Move} {ts : Tables} (index : Nat)
    (hpaths : ∀ m ∈ moves, m.path ≠ []) (hfits : FitsTables (.object ts) moves) :
    EndsAt index moves (Store.memory.makeMoves index moves ts).1 (wholeRun (.object ts) moves).1 ∧
      (Store.memory.makeMoves index moves ts).2.toTree = (wholeRun (.object ts) moves).2 := by
  induction moves generalizing index ts with
  | nil => exact ⟨rfl, rfl⟩
  | cons m ms ih =>
    obtain ⟨hpath, hpaths⟩ := List.forall_mem_cons.1 hpaths
    obtain ⟨hmeets, -, hrest⟩ := hfits
    obtain ⟨s, p, hp⟩ := List.exists_cons_of_ne_nil hpath
    obtain ⟨e, cause, hstep, hmove⟩ | ⟨w, hstep, hmove⟩ :=
      Store.memory.makeMove_tables hp rfl hmeets
    · simp only [wholeRun, hstep, Store.makeMoves, hmove]
      exact ⟨⟨m, cause.message, rfl, rfl⟩, rfl⟩
    · obtain ⟨hend, hlast⟩ := ih (index + 1) hpaths (hrest _ hstep)
      simp only [wholeRun, hstep, Store.makeMoves, hmove]
      exact ⟨hend.cons m, hlast⟩

theorem runAll_writesOfTables_nil {ts : Tables} (hts : ts.Sorted) :
    Write.runAll (Slice.writesOfTables ts []) ts = [] := by
  have hsorted : (Write.runAll (Slice.writesOfTables ts []) ts).Sorted := sorted_runAll _ hts
  refine Dictionary.ext_of_sorted hsorted List.Pairwise.nil fun t => ?_
  have hwrites : Slice.writesOfTables ts [] = ts.keys.map .deleteTable := by
    simp [Slice.writesOfTables, Dictionary.contains]
  rw [hwrites, get?_deleteTables hts, Dictionary.get?_nil]
  split
  · rfl
  · rename_i ht
    rw [Dictionary.mem_keys_iff] at ht
    simpa [Dictionary.contains] using ht

/-- The moves to a tree that is no object are one move of the whole configuration. In memory it deletes all
tables. -/
theorem apply_memory_diff_of_not_object {ts : Tables} {w : Value} {moves : List Move} (hts : ts.Sorted)
    (hw : w.isObject = false) (h : moves.Perm (diff (.object ts) w)) :
    Store.memory.apply moves ts = (.ok ⟨moves.length, moves.length⟩, []) := by
  have hdiffer : (Value.object ts == w) = false := by
    cases w with
    | object ns => cases hw
    | scalar _ => rfl
    | array _ => rfl
  have hdiff : diff (.object ts) w = [.replace [] (.object ts) w] := by
    rw [diff_of_not_objects (by simp [hw]), if_neg (by simp [hdiffer])]
  obtain rfl : moves = [.replace [] (.object ts) w] := List.perm_singleton.1 (hdiff ▸ h)
  have hprior : (Value.object ts == Value.object ts) = true := Value.same_refl _
  have hstep : (Move.replace [] (.object ts) w).step (.object ts) = .ok w := by
    rw [← toOption_eq_some_iff]
    simp [Move.replace, Move.step, Move.check, Move.run, Value.resolve, Value.resolveFrom, Value.replaceAt,
      Value.alterFrom, hprior]
  have hmove : Store.memory.makeMove (.replace [] (.object ts) w) ts = (.ok (), []) := by
    have hview : (Move.replace [] (.object ts) w).step
        ((Slice.ofPath (Move.replace [] (.object ts) w).path).view ts.toTree) = .ok w := hstep
    rw [makeMove_memory, hview]
    show (Except.ok (), Write.runAll (Slice.writesOfTables ts (Tables.ofTree w)) ts) = (.ok (), [])
    rw [Tables.ofTree_of_not_object hw, runAll_writesOfTables_nil hts]
  simp only [Store.apply, Store.makeMoves, hmove]

section Memory

variable {ts ns : Tables} {moves : List Move} (hts : (Value.object ts).WellFormed)
  (hns : (Value.object ns).WellFormed) (h : moves.Perm (diff (.object ts) (.object ns)))

include hts hns h

/-- A store in memory makes the moves of a difference in any order, and then holds what they lead to. -/
theorem apply_memory_diff : ∃ ts', Store.memory.apply moves ts = (.ok ⟨moves.length, moves.length⟩, ts') ∧
    Value.object ts' = (Value.object ts).settled (.object ns) := by
  have hpaths : ∀ m ∈ moves, m.path ≠ [] := fun m hm hp => by
    cases not_objects_of_mem_diff_root hts hns (h.mem_iff.1 hm) hp
  have hnodup : (moves.map (·.path)).Nodup := ((h.map _).nodup_iff).2 (nodup_places_diff hts hns)
  obtain ⟨hfits, hrun⟩ := wholeRun_diff hts hns hpaths (fun m hm => h.mem_iff.1 hm) hnodup
  rw [blend_placesBut_diff hts hns h] at hfits hrun
  obtain ⟨hend, hlast⟩ := makeMoves_memory 0 hpaths hfits
  rw [hrun] at hend hlast
  simp only [Store.apply]
  generalize Store.memory.makeMoves 0 moves ts = outcome at hend hlast
  obtain ⟨result, ts'⟩ := outcome
  obtain rfl : result = .ok () := hend
  exact ⟨ts', rfl, hlast⟩

end Memory

/-- A store in memory makes the moves of a difference, and then has the tables of the tree that they lead to. -/
theorem apply_memory_tables {ts : Tables} {target : Value} {moves : List Move}
    (hts : (Value.object ts).WellFormed) (htarget : target.WellFormed)
    (h : moves.Perm (diff (.object ts) target)) :
    ∃ ts', Store.memory.apply moves ts = (.ok ⟨moves.length, moves.length⟩, ts') ∧
      (Value.object ts').WellFormed ∧ (Value.object ts').same (Tables.ofTree target).toTree = true := by
  by_cases hobject : target.isObject = true
  · obtain ⟨ns, rfl⟩ := Value.eq_object_of_isObject hobject
    obtain ⟨ts', happly, hlast⟩ := apply_memory_diff hts htarget h
    have hlast' : (Value.object ts').WellFormed := hlast ▸ Value.wellFormed_blend hts htarget
    exact ⟨ts', happly, hlast', hlast ▸ Value.same_settled hts htarget⟩
  · have hnot : target.isObject = false := by simpa using hobject
    have hempty := apply_memory_diff_of_not_object hts.1 hnot h
    exact ⟨[], hempty, Value.wellFormed_empty, by rw [Tables.ofTree_of_not_object hnot]; rfl⟩

end ConfigUpdate
