import ConfigUpdate.Proofs.MoveCongruence
import ConfigUpdate.Proofs.SliceStep

/-!
# Making moves in slices and in whole trees

A plan made in a store in memory, move by move and slice by slice, goes as far as it would go in the
whole tree, and leaves an equal configuration: `apply_memory_simulates`. The two trees need not be
identical, since a table that is equal to what it is to become is not written. So each step needs that
moves respect equality.
-/

namespace ConfigUpdate

/-- Moves made one after another in a whole tree: the position of the first one that fails, if one does,
and the last tree. -/
def wholeRun (tree : Value) : List Move → Option Nat × Value
  | [] => (none, tree)
  | m :: ms =>
    match m.step (m.ground tree) with
    | .error _ => (some 0, tree)
    | .ok after => ((wholeRun after ms).1.map (· + 1), (wholeRun after ms).2)

/-- Along the run in the whole tree the paths of the moves lead below tables or missing ones only, and
no move of the whole configuration leaves anything but an object. -/
def FitsTables (tree : Value) : List Move → Prop
  | [] => True
  | m :: ms =>
    m.MeetsTable tree ∧
      (m.path = [] → ∀ after, m.step tree = .ok after → after.isObject = true) ∧
      ∀ after, m.step (m.ground tree) = .ok after → FitsTables after ms

/-- How the moves of a list, of which the first has the position `index`, end in a store if the run in
the whole tree stops at a position or at none. -/
def EndsAt (index : Nat) (moves : List Move) (result : Except UpdateError Unit) : Option Nat → Prop
  | none => result = .ok ()
  | some i => ∃ m reason, moves[i]? = some m ∧
      result = .error (.concurrentModification (index + i) m.path.text (index + i) reason)

/-! ## Equal trees -/

section Congruence

variable {m : Move} {v w : Value}

theorem meetsTable_congr (h : v.same w = true) (hw : m.MeetsTable w) : m.MeetsTable v := by
  intro t k p hp table htable
  obtain ⟨s, u, rfl, rfl, -⟩ | ⟨xs, ys, rfl, rfl, -⟩ | ⟨ms, ns, rfl, rfl, hmembers⟩ :=
    Value.same_cases h
  · cases htable
  · cases htable
  · obtain ⟨hms, -⟩ | ⟨c, d, hms, hns, hcd⟩ :=
      Value.sameOption_iff.1 (Value.sameOption_get? hmembers t.name)
    · rw [Value.get?, hms] at htable
      cases htable
    · rw [Value.get?, hms, Option.some.injEq] at htable
      subst htable
      rw [Value.same_isObject hcd]
      exact hw t k p hp d hns

theorem same_ground (h : v.same w = true) : (m.ground v).same (m.ground w) = true := by
  obtain ⟨s, u, rfl, rfl, -⟩ | ⟨xs, ys, rfl, rfl, -⟩ | ⟨ms, ns, rfl, rfl, hmembers⟩ :=
    Value.same_cases h
  · exact h
  · exact h
  · have hcontains : ∀ key, Dictionary.contains ms key = Dictionary.contains ns key :=
      fun key => (Value.sameOption_get? hmembers key).isSome_eq
    simp only [Move.ground]
    split
    · rw [hcontains]
      split
      · exact h
      · exact Value.sameMembers_insert hmembers (Value.same_refl .empty) _
    · exact h

theorem isObject_of_step_congr (h : v.same w = true)
    (hw : ∀ after, m.step w = .ok after → after.isObject = true) :
    ∀ after, m.step v = .ok after → after.isObject = true := by
  intro after hstep
  have hresults := Move.sameOption_step (m := m) h
  rw [toOption_eq_some_iff.2 hstep] at hresults
  obtain ⟨hnone, -⟩ | ⟨c, d, hc, hd, hcd⟩ := Value.sameOption_iff.1 hresults
  · cases hnone
  · cases hc
    rw [Value.same_isObject hcd]
    exact hw d (toOption_eq_some_iff.1 hd)

end Congruence

/-! ## Runs -/

theorem EndsAt.cons {index : Nat} {moves : List Move} {result : Except UpdateError Unit}
    {stop : Option Nat} (h : EndsAt (index + 1) moves result stop) (m : Move) :
    EndsAt index (m :: moves) result (stop.map (· + 1)) := by
  cases stop with
  | none => exact h
  | some i =>
    obtain ⟨m', reason, hm', hresult⟩ := h
    refine ⟨m', reason, hm', ?_⟩
    rw [hresult, Nat.add_assoc, Nat.add_comm 1 i]

theorem makeMoves_simulates {moves : List Move} {ts : Tables} {tree : Value} (index : Nat)
    (hts : ts.Sorted) (hsame : (Value.object ts).same tree = true)
    (hvalues : ∀ m ∈ moves, ∀ v, m.value = some v → v.WellFormed) (hfits : FitsTables tree moves) :
    EndsAt index moves (Store.memory.makeMoves index moves ts).1 (wholeRun tree moves).1 ∧
      (Value.object (Store.memory.makeMoves index moves ts).2).same (wholeRun tree moves).2 = true := by
  induction moves generalizing index ts tree with
  | nil => exact ⟨rfl, hsame⟩
  | cons m ms ih =>
    obtain ⟨hmeets, hroot, hrest⟩ := hfits
    have hresults := Move.sameOption_step (m := m) (same_ground (m := m) hsame)
    have hmake := makeMove_simulates hts (hvalues m List.mem_cons_self)
      (meetsTable_congr hsame hmeets) fun hp => isObject_of_step_congr hsame (hroot hp)
    simp only [Store.makeMoves, wholeRun]
    rcases hmake with ⟨hfail, cause, hmove⟩ | ⟨after, ts', hafter, hmove, hts', hsame'⟩
    · -- The move fails in the store and, on an equal tree, in the whole tree.
      rw [hfail] at hresults
      cases hstep : m.step (m.ground tree) with
      | ok after => simp [hstep, Value.SameOption] at hresults
      | error e =>
        rw [hmove]
        exact ⟨⟨m, cause.message, rfl, rfl⟩, hsame⟩
    · rw [hafter] at hresults
      cases hstep : m.step (m.ground tree) with
      | error e => simp [hstep, Value.SameOption] at hresults
      | ok after' =>
        rw [hstep] at hresults
        have hequal : (Value.object ts').same after' = true := Value.same_trans hsame' hresults
        obtain ⟨hend, hlast⟩ := ih (index + 1) hts' hequal
          (fun m' hm' => hvalues m' (List.mem_cons_of_mem m hm')) (hrest after' hstep)
        rw [hmove]
        exact ⟨hend.cons m, hlast⟩

/-- The moves of a plan made in a store in memory, slice by slice, are all made exactly if they can all
be made in the whole tree, and stop where the whole tree stops them. Either way the content of the store
is equal to the last whole tree. -/
theorem apply_memory_simulates (ts : Tables) (moves : List Move) (hts : (Value.object ts).WellFormed)
    (hvalues : ∀ m ∈ moves, ∀ v, m.value = some v → v.WellFormed)
    (hfits : FitsTables (.object ts) moves) :
    ((Store.memory.apply moves ts).1 = .ok ⟨moves.length, moves.length⟩
        ↔ (wholeRun (.object ts) moves).1 = none) ∧
      (∀ i, (∃ m reason, moves[i]? = some m ∧ (Store.memory.apply moves ts).1
          = .error (.concurrentModification i m.path.text i reason))
        ↔ (wholeRun (.object ts) moves).1 = some i) ∧
      (Tables.toTree (Store.memory.apply moves ts).2).same (wholeRun (.object ts) moves).2 = true := by
  obtain ⟨hend, hlast⟩ :=
    makeMoves_simulates 0 hts.1 (Value.same_refl (.object ts)) hvalues hfits
  simp only [Store.apply, Tables.toTree]
  generalize Store.memory.makeMoves 0 moves ts = outcome at hend hlast
  obtain ⟨result, ts'⟩ := outcome
  cases hstop : (wholeRun (.object ts) moves).1 with
  | none =>
    rw [hstop] at hend
    obtain rfl : result = .ok () := hend
    simpa using hlast
  | some i =>
    rw [hstop] at hend
    obtain ⟨m, reason, hm, hresult⟩ := hend
    obtain rfl : result = _ := hresult
    refine ⟨by simp, fun j => ⟨?_, ?_⟩, hlast⟩
    · rintro ⟨m', reason', -, heq⟩
      simp only [Except.error.injEq, UpdateError.concurrentModification.injEq, Nat.zero_add] at heq
      rw [heq.1]
    · intro hij
      obtain rfl : i = j := Option.some.inj hij
      exact ⟨m, reason, hm, by simp⟩

/-! ## A plan that does not fit any more -/

/-- The content of a store with a VLAN. -/
def oneVlan : Tables := [("VLAN", .object [("Vlan10", .empty)])]

/-- A plan that adds a member to the VLAN and removes another VLAN, which is not there. -/
def outdatedPlan : List Move := [
  .add (.ofNames ["VLAN_MEMBER", "Vlan10|Ethernet0"]) .empty,
  .remove (.ofNames ["VLAN", "Vlan20"]) .empty]

theorem fitsTables_outdatedPlan : FitsTables (.object oneVlan) outdatedPlan := by
  refine ⟨?_, (fun hp => by cases hp), ?_⟩
  · rintro t k p hp table htable
    cases hp
    cases htable
  · intro after hafter
    have hmember : after = .object (oneVlan ++
        [("VLAN_MEMBER", .object [("Vlan10|Ethernet0", .empty)])]) := by
      cases hafter
      rfl
    subst hmember
    refine ⟨?_, (fun hp => by cases hp), ?_⟩
    · rintro t k p hp table htable
      cases hp
      cases htable
      rfl
    · intro last hlast
      cases hlast

theorem apply_outdatedPlan :
    (Value.object oneVlan).WellFormed ∧
      (∀ m ∈ outdatedPlan, ∀ v, m.value = some v → v.WellFormed) ∧
      FitsTables (.object oneVlan) outdatedPlan ∧
      ((Store.memory.apply outdatedPlan oneVlan).1 = .ok ⟨2, 2⟩
        ↔ (wholeRun (.object oneVlan) outdatedPlan).1 = none) ∧
      (∀ i, (∃ m reason, outdatedPlan[i]? = some m ∧ (Store.memory.apply outdatedPlan oneVlan).1
          = .error (.concurrentModification i m.path.text i reason))
        ↔ (wholeRun (.object oneVlan) outdatedPlan).1 = some i) ∧
      (Tables.toTree (Store.memory.apply outdatedPlan oneVlan).2).same
        (wholeRun (.object oneVlan) outdatedPlan).2 = true := by
  have hts : (Value.object oneVlan).WellFormed := by decide
  have hvalues : ∀ m ∈ outdatedPlan, ∀ v, m.value = some v → v.WellFormed := by
    intro m hm v hv
    rcases List.mem_pair.1 hm with rfl | rfl
    · cases hv
      exact Value.wellFormed_empty
    · cases hv
  exact ⟨hts, hvalues, fitsTables_outdatedPlan,
    apply_memory_simulates oneVlan outdatedPlan hts hvalues fitsTables_outdatedPlan⟩

end ConfigUpdate
