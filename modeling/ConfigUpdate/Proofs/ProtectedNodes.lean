import ConfigUpdate.Proofs.AcceptedMoves

/-!
# Protected nodes

The gate refuses the removal of a protected node by its place. So an update that it accepts keeps the node as
long as it keeps the object around it: `Gate.protected_stays_iff`. A node goes unnoticed with its entry or its
table, although it cannot be removed (`Gate.exists_lost_node`).
-/

namespace ConfigUpdate

/-- No protected node has the place of a removal that passes. -/
theorem ne_text_of_checkProtected {e : Edit} (h : Gate.checkProtected e = .ok ()) (hremove : e.verb = .remove)
    {node : ProtectedNode} (hnode : node ∈ protectedNodes) : node.path ≠ e.path.text := by
  intro heq
  rw [Gate.checkProtected, if_pos hremove] at h
  cases hfind : protectedNodes.find? (·.path == e.path.text) with
  | some found =>
    rw [hfind] at h
    cases h
  | none =>
    have hnot := List.find?_eq_none.1 hfind node hnode
    rw [heq] at hnot
    exact hnot (beq_self_eq_true _)

namespace Gate

/-- An accepted update keeps a protected node exactly if it keeps an object around it. -/
theorem protected_stays_iff (g : Gate) (scope : Scope) (current target : Value) (hc : current.WellFormed)
    (ht : target.WellFormed) (hok : g.checkMoves scope (diff current target) = .ok ())
    (node : ProtectedNode) (hnode : node ∈ protectedNodes) (around : List String) (key : String)
    (hplace : (Pointer.ofNames (around ++ [key])).text = node.path)
    (hpresent : (current.memberAt (around ++ [key])).isSome = true) :
    (target.memberAt (around ++ [key])).isSome = true ↔
      ∃ ms, target.memberAt around = some (.object ms) := by
  obtain ⟨x, hx⟩ := Option.isSome_iff_exists.1 hpresent
  constructor
  · intro hstays
    obtain ⟨y, hy⟩ := Option.isSome_iff_exists.1 hstays
    exact Value.exists_object_of_memberAt hy
  · rintro ⟨ms, hms⟩
    by_contra hlost
    have hnone : target.memberAt (around ++ [key]) = none := by simpa using hlost
    -- The object around the node is still there, so the node is removed by a move of its own.
    obtain ⟨e, hverb, hpath, hcheck⟩ := exists_removing_edit hc ht hok hx hnone hms
    have hprotected := (checkBelowRoot_eq_ok_iff.1 hcheck).1
    refine ne_text_of_checkProtected hprotected hverb hnode ?_
    rw [hpath, hplace]

/-! ## A node that goes with its table -/

/-- Two loopback interfaces. -/
def twoLoopbacks : Value :=
  .object [("LOOPBACK_INTERFACE", .object [("Loopback0", .empty), ("Loopback1", .empty)])]

/-- The first of the two loopback interfaces. -/
def firstLoopback : Value :=
  .object [("LOOPBACK_INTERFACE", .object [("Loopback0", .empty)])]

/-- The second loopback interface may go, and the first one stays. -/
theorem protected_stays_firstLoopback :
    (onFirstFamily []).checkMoves .host (diff twoLoopbacks firstLoopback) = .ok () ∧
      ((firstLoopback.memberAt ["LOOPBACK_INTERFACE", "Loopback0"]).isSome = true ↔
        ∃ ms, firstLoopback.memberAt ["LOOPBACK_INTERFACE"] = some (.object ms)) := by
  have hc : twoLoopbacks.WellFormed := by decide
  have ht : firstLoopback.WellFormed := by decide
  have hok : (onFirstFamily []).checkMoves .host (diff twoLoopbacks firstLoopback) = .ok () := rfl
  refine ⟨hok, protected_stays_iff (onFirstFamily []) .host twoLoopbacks firstLoopback hc ht hok
    ⟨"/LOOPBACK_INTERFACE/Loopback0", "Loopback0 carries the router ID and cannot be removed"⟩ ?_
    ["LOOPBACK_INTERFACE"] "Loopback0" ?_ rfl⟩
  · decide
  · decide

/-- Without its table the configuration has lost the interface that cannot be removed. -/
theorem exists_lost_node :
    ¬ ∀ (g : Gate) (scope : Scope) (current target : Value), current.WellFormed → target.WellFormed →
      current.isObject = true → target.isObject = true →
      g.checkMoves scope (diff current target) = .ok () →
      ((current.memberAt ["LOOPBACK_INTERFACE", "Loopback0"]).isSome = true →
        (target.memberAt ["LOOPBACK_INTERFACE", "Loopback0"]).isSome = true) ∧
      ((current.memberAt ["PFC_WD", "GLOBAL", "POLL_INTERVAL"]).isSome = true →
        (target.memberAt ["PFC_WD", "GLOBAL", "POLL_INTERVAL"]).isSome = true) := by
  intro hall
  obtain ⟨hloopback, -⟩ :=
    hall (onFirstFamily []) .host firstLoopback .empty (by decide) (by decide) rfl rfl rfl
  exact Bool.false_ne_true (hloopback rfl)

end Gate

end ConfigUpdate
