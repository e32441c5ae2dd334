import ConfigUpdate.Plan.Preference
import Mathlib.Data.List.Nodup

/-!
# The preferred order lists every position once

Each round of `place` takes one waiting move out, and a round in which all moves wait for one another
lists the rest as it stands. So nothing is lost or listed twice: `preferenceOrder_perm`.
-/

namespace ConfigUpdate

theorem map_index_waitingOf (moves : List Move) :
    (waitingOf moves).map (·.index) = List.range moves.length := by
  have h : (waitingOf moves).map (·.index) = moves.zipIdx.map Prod.snd := by
    simp [waitingOf, Function.comp_def]
  rw [h, List.zipIdx_map_snd, List.range_eq_range']

/-- The waiting moves after one of them has been placed. -/
def afterPlacing (w : Waiting) (ws : List Waiting) : List Waiting :=
  (ws.filter (·.index != w.index)).map fun v => { v with before := v.before.filter (· != w.index) }

/-- What is left after a round has the same positions, without the one that was placed. -/
theorem map_index_afterPlacing {ws : List Waiting} (w : Waiting) (h : (ws.map (·.index)).Nodup) :
    (afterPlacing w ws).map (·.index) = (ws.map (·.index)).erase w.index := by
  rw [afterPlacing, h.erase_eq_filter, List.filter_map, List.map_map]
  rfl

/-- A round places the first move that waits for none. -/
theorem place_succ {ws : List Waiting} {w : Waiting} (fuel : Nat)
    (h : ws.find? (·.before.isEmpty) = some w) :
    place (fuel + 1) ws = w.index :: place fuel (afterPlacing w ws) := by
  rw [place, h]
  rfl

theorem place_perm (fuel : Nat) (ws : List Waiting) (h : (ws.map (·.index)).Nodup) :
    (place fuel ws).Perm (ws.map (·.index)) := by
  induction fuel generalizing ws with
  | zero => exact List.Perm.refl _
  | succ fuel ih =>
    cases hw : ws.find? (·.before.isEmpty) with
    | none =>
      rw [place, hw]
    | some w =>
      have hmem : w.index ∈ ws.map (·.index) :=
        List.mem_map_of_mem (List.mem_of_find?_eq_some hw)
      have hround := map_index_afterPlacing w h
      have hrest := ih _ (by rw [hround]; exact h.erase _)
      rw [hround] at hrest
      rw [place_succ fuel hw]
      exact (hrest.cons _).trans (List.perm_cons_erase hmem).symm

theorem preferenceOrder_perm (moves : List Move) :
    (preferenceOrder moves).Perm (List.range moves.length) := by
  have h := place_perm moves.length (waitingOf moves)
  rw [map_index_waitingOf] at h
  exact h List.nodup_range

end ConfigUpdate
