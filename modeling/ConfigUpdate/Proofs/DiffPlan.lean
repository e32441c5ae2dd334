import ConfigUpdate.Proofs.SafeMove
import ConfigUpdate.Proofs.SearchProgress
import ConfigUpdate.Proofs.SearchSoundness

/-!
# When a difference can be planned

Between two configurations that layered rules accept, the search for an order of the difference succeeds
exactly if the rules also accept the tree in which the moves end. This tree is equal to the target but
need not be identical with it: a field that is equal in both trees is not moved, so it goes on naming
entries as it is written in the current one (`ReferenceRules.Keeps`). This makes a difference only for a zero,
which can be written in two ways (`ReferenceRules.exists_zero_of_not_keeps`).
-/

namespace ConfigUpdate

/-! ## The tree in which the moves end -/

namespace ReferenceRules

/-- Fields that are equal in both trees name, as they are written in the first one, entries of the
second one. -/
def Keeps (rules : ReferenceRules) (current target : Value) : Prop :=
  ∀ rule ∈ rules.references, ∀ key a b,
    current.memberAt [rule.table, key, rule.field] = some a →
      target.memberAt [rule.table, key, rule.field] = some b → a.same b = true →
        ∀ name ∈ namesIn a, hasEntry target rule.targetTable name = true

variable {rules : ReferenceRules} {current target : Value}

theorem hasEntry_settled (hc : current.WellFormed) (ht : target.WellFormed) (table key : String) :
    hasEntry (current.settled target) table key = hasEntry target table key := by
  rw [hasEntry_eq_isSome, hasEntry_eq_isSome]
  exact (Value.sameOption_memberAt (Value.same_settled hc ht) _).isSome_eq

/-- Names in the last tree are names in the target, or in a field that is equal in both trees. -/
theorem namesAt_settled (hc : current.WellFormed) (ht : target.WellFormed) {rule : ReferenceRule}
    {key name : String} (h : name ∈ namesAt (current.settled target) rule key) :
    name ∈ namesAt target rule key ∨ ∃ a b,
      current.memberAt [rule.table, key, rule.field] = some a ∧
        target.memberAt [rule.table, key, rule.field] = some b ∧ a.same b = true ∧
          name ∈ namesIn a := by
  by_cases hown : ∃ m ∈ diff current target,
      m.path <+: Pointer.ofNames [rule.table, key, rule.field]
  · obtain ⟨m, hm, hp⟩ := hown
    rw [namesAt, memberAt_blend_at hc ht hm hp] at h
    exact .inl h
  · have hfree : ∀ m ∈ diff current target,
        ¬ m.path <+: Pointer.ofNames [rule.table, key, rule.field] :=
      fun m hm hp => hown ⟨m, hm, hp⟩
    right
    have hsame := Value.sameOption_memberAt (Value.same_settled hc ht) [rule.table, key, rule.field]
    unfold namesAt at h
    obtain heq | ⟨ms, ns, -, hns⟩ := kept_memberAt_settled hc ht hfree
    · rw [heq] at h hsame
      cases ha : current.memberAt [rule.table, key, rule.field] with
      | none => simp [ha] at h
      | some a =>
        cases hb : target.memberAt [rule.table, key, rule.field] with
        | none => simp [ha, hb, Value.SameOption] at hsame
        | some b =>
          rw [ha, hb] at hsame
          exact ⟨a, b, rfl, rfl, hsame, by simpa [ha] using h⟩
    · simp [hns, namesIn] at h

theorem accepts_settled_iff (hc : current.WellFormed) (ht : target.WellFormed)
    (hgoal : rules.Accepts target) :
    rules.Accepts (current.settled target) ↔ rules.Keeps current target := by
  constructor
  · intro hlast rule hrule key a b ha hb hab name hname
    have hfree := not_prefix_of_same hc ht ha hb hab
    have hnames : namesAt (current.settled target) rule key = namesAt current rule key :=
      namesAt_eq_of_kept (kept_memberAt_settled hc ht hfree)
    rw [← hasEntry_settled hc ht]
    refine hlast.references rule hrule key name ?_
    rw [hnames, namesAt, ha]
    exact hname
  · intro hkeeps
    constructor
    · intro rule hrule key hkey hneeds
      rw [hasEntry_settled hc ht] at hkey ⊢
      exact hgoal.parents rule hrule key hkey hneeds
    · intro rule hrule key name hname
      rw [hasEntry_settled hc ht]
      rcases namesAt_settled hc ht hname with hname | ⟨a, b, ha, hb, hab, hname⟩
      · exact hgoal.references rule hrule key name hname
      · exact hkeeps rule hrule key a b ha hb hab name hname

/-- Where such fields do not go on naming entries, there is one that names a zero, which the target writes
in the other way. -/
theorem exists_zero_of_not_keeps (hgoal : rules.Accepts target) (h : ¬ rules.Keeps current target) :
    ∃ rule ∈ rules.references, ∃ key a b,
      current.memberAt [rule.table, key, rule.field] = some a ∧
        target.memberAt [rule.table, key, rule.field] = some b ∧ a.same b = true ∧
          ∃ name ∈ namesIn a, name ∉ namesIn b ∧ (name = "0.0" ∨ name = "-0.0") := by
  simp only [Keeps, not_forall] at h
  obtain ⟨rule, hrule, key, a, b, ha, hb, hab, name, hname, hmissing⟩ := h
  have hnot : name ∉ namesIn b := fun hnamed =>
    hmissing (hgoal.references rule hrule key name (by rw [namesAt, hb]; exact hnamed))
  exact ⟨rule, hrule, key, a, b, ha, hb, hab, name, hname, hnot,
    (mem_namesIn_of_same hab name hname).resolve_left hnot⟩

end ReferenceRules

/-! ## States of the search -/

theorem placesBut_perm {l l' : List Move} (h : l.Perm l') : placesBut l = placesBut l' := by
  funext p
  simp only [placesBut]
  rw [Bool.eq_iff_iff]
  simp [h.mem_iff]

namespace Problem

/-- The moves at some positions. -/
def movesAt (p : Problem) (positions : List Nat) : List Move :=
  positions.filterMap (p.moves[·]?)

variable {p : Problem}

theorem movesAt_erase {positions : List Nat} {i : Nat} {m : Move} (hi : i ∈ positions)
    (hm : p.moves[i]? = some m) :
    (p.movesAt positions).Perm (m :: p.movesAt (positions.erase i)) := by
  have hperm := (List.perm_cons_erase hi).filterMap (p.moves[·]?)
  rwa [List.filterMap_cons_some hm] at hperm

theorem movesAt_preferenceOrder : (p.movesAt (preferenceOrder p.moves)).Perm p.moves :=
  perm_of_positions (preferenceOrder_perm p.moves)

section Difference

variable {current target : Value} (hc : current.WellFormed) (ht : target.WellFormed)
variable (hmoves : p.moves = diff current target)

include hc ht hmoves

theorem nodup_places_movesAt {positions : List Nat}
    (h : positions.Sublist (preferenceOrder p.moves)) :
    ((p.movesAt positions).map (·.path)).Nodup := by
  have hall : ((p.movesAt (preferenceOrder p.moves)).map (·.path)).Nodup := by
    rw [(movesAt_preferenceOrder.map _).nodup_iff, hmoves]
    exact nodup_places_diff hc ht
  exact hall.sublist ((h.filterMap _).map _)

/-- A candidate of a blend leads to the blend with its place taken, if the oracle accepts that. -/
theorem step_movesAt {positions : List Nat} (h : positions.Sublist (preferenceOrder p.moves)) {i : Nat}
    {m : Move} (hi : i ∈ positions) (hm : p.moves[i]? = some m) :
    m.step (Value.blend (placesBut (p.movesAt positions)) current target)
        = .ok (Value.blend (placesBut (p.movesAt (positions.erase i))) current target) ∧
      withPlace (placesBut (p.movesAt positions)) m.path
        = placesBut (p.movesAt (positions.erase i)) := by
  have hperm := movesAt_erase hi hm
  have hnodup := nodup_places_movesAt hc ht hmoves h
  rw [(hperm.map _).nodup_iff, List.map_cons, List.nodup_cons] at hnodup
  have hplace : withPlace (placesBut (p.movesAt positions)) m.path
      = placesBut (p.movesAt (positions.erase i)) := by
    rw [placesBut_perm hperm, withPlace_placesBut hnodup.1]
  have hmem : m ∈ diff current target := hmoves ▸ List.mem_of_getElem? hm
  have htaken : placesBut (p.movesAt positions) m.path = false := by
    rw [placesBut_perm hperm]
    simp [placesBut]
  have hstep := step_blend hc ht hmem htaken
  rw [hplace] at hstep
  exact ⟨hstep, hplace⟩

/-- Every state that the search can get to is the blend at the places of the moves made so far. -/
theorem tree_of_reachable {s : SearchState} (h : p.Reachable current s) :
    s.tree = Value.blend (placesBut (p.movesAt s.remaining)) current target := by
  induction h with
  | start => exact (blend_placesBut_diff hc ht (hmoves ▸ movesAt_preferenceOrder)).symm
  | step hs hi hnext htree =>
    obtain ⟨m, after, hm, hcheck, hrun, -, rfl⟩ := next?_eq_some_iff.1 hnext
    -- The tree that the move leads to is known, since a move has one result.
    have hstep := (step_movesAt hc ht hmoves hs.sublist hi hm).1
    rw [← htree, Move.step_eq_ok_iff.2 ⟨hcheck, hrun⟩] at hstep
    exact Except.ok.inj hstep

end Difference

/-! ## The search -/

section Search

open ReferenceRules

variable {rules : ReferenceRules} {current target : Value}
variable (hc : current.WellFormed) (ht : target.WellFormed)
variable (hmoves : p.moves = diff current target) (horacle : p.oracle = rules.oracle)
variable (hnow : rules.oracle current = .ok ())

include hc ht hmoves horacle hnow

/-- The search never gets stuck if the rules accept the tree in which the moves end. -/
theorem progress_diff (hrules : rules.Layered) (hlast : rules.Accepts (current.settled target)) :
    p.Progress current := by
  intro s hs hleft
  have hsub := hs.sublist
  have htree := tree_of_reachable hc ht hmoves hs
  have haccepted := hs.accepted (horacle ▸ hnow)
  rw [htree, horacle, oracle_eq_ok_iff (Value.wellFormed_blend hc ht)] at haccepted
  obtain ⟨i, hi⟩ := List.exists_mem_of_ne_nil _ hleft
  have hlt : i < p.moves.length :=
    List.mem_range.1 ((preferenceOrder_perm p.moves).mem_iff.1 (hsub.subset hi))
  obtain ⟨m₀, hm₀⟩ : ∃ m, p.moves[i]? = some m := ⟨_, List.getElem?_eq_getElem hlt⟩
  have hmem : m₀ ∈ p.movesAt s.remaining := List.mem_filterMap.2 ⟨i, hi, hm₀⟩
  have hpending : ∃ m ∈ diff current target, placesBut (p.movesAt s.remaining) m.path = false := by
    refine ⟨m₀, hmoves ▸ List.mem_of_getElem? hm₀, ?_⟩
    simpa [placesBut] using ⟨m₀, hmem, rfl⟩
  obtain ⟨m, -, htaken, hsafe⟩ := exists_safe_move hc ht hlast haccepted hrules hpending
  -- The safe place is that of a move that is left, which is the candidate to try.
  have hplace : ∃ m' ∈ p.movesAt s.remaining, m'.path = m.path := by
    simpa [placesBut] using htaken
  obtain ⟨m', hm', hpath⟩ := hplace
  obtain ⟨j, hj, hget⟩ := List.mem_filterMap.1 hm'
  obtain ⟨hstep, hnext⟩ := step_movesAt hc ht hmoves hsub hj hget
  rw [← htree] at hstep
  obtain ⟨hcheck, hrun⟩ := Move.step_eq_ok_iff.1 hstep
  rw [← hpath, hnext, ← oracle_eq_ok_iff (Value.wellFormed_blend hc ht), ← horacle] at hsafe
  exact ⟨j, hj, _, next?_eq_some_iff.2 ⟨m', _, hget, hcheck, hrun, hsafe, rfl⟩⟩

/-- What is planned ends in a tree that the rules accept. -/
theorem accepts_settled_of_sort {sorted : List Move} (h : p.sort current = .ok sorted) :
    rules.Accepts (current.settled target) := by
  obtain ⟨order, hperm, heq, last, hrun⟩ := order_of_sort h
  have hsorted : sorted.Perm (diff current target) := by
    rw [heq, ← hmoves]
    exact perm_of_positions hperm
  have hnodup : (sorted.map (·.path)).Nodup :=
    ((hsorted.map _).nodup_iff).2 (nodup_places_diff hc ht)
  have hblend := run_blend hc ht (fun m hm => hsorted.mem_iff.1 hm) hnodup
  rw [blend_placesBut_diff hc ht hsorted] at hblend
  have hlast := hrun.accepted (horacle ▸ hnow)
  rw [hrun.unique hblend, horacle, oracle_eq_ok_iff (Value.wellFormed_blend hc ht)] at hlast
  exact hlast

end Search

/-- Between two configurations that layered rules accept, such as those of a switch, with a budget of one
state for each move and no two states taken for one, the moves of the difference can be put into an
order exactly if the fields that are equal in both go on naming entries. -/
theorem sort_diff_iff :
    ReferenceRules.switch.Layered ∧
      ∀ (rules : ReferenceRules) (current target : Value) (budget : Nat) (fingerprint : Fingerprint),
        rules.Layered → current.WellFormed → target.WellFormed →
        rules.oracle current = .ok () → rules.oracle target = .ok () →
        (diff current target).length ≤ budget →
        (Problem.mk rules.oracle (diff current target) budget fingerprint).CollisionFree current →
        ((∃ sorted, (Problem.mk rules.oracle (diff current target) budget fingerprint).sort current
          = .ok sorted) ↔ rules.Keeps current target) := by
  refine ⟨ReferenceRules.layered_switch, ?_⟩
  intro rules current target budget fingerprint hrules hc ht hnow hgoal hbudget hfree
  rw [← ReferenceRules.accepts_settled_iff hc ht ((ReferenceRules.oracle_eq_ok_iff ht).1 hgoal)]
  constructor
  · rintro ⟨sorted, hsorted⟩
    exact accepts_settled_of_sort hc ht rfl rfl hnow hsorted
  · intro hlast
    exact sort_of_progress hfree (progress_diff hc ht rfl rfl hnow hrules hlast) hbudget

/-! ## Fingerprints without collisions -/

/-- The positions that are left as the bits of a number. -/
def mask (positions : List Nat) : UInt64 :=
  positions.foldr (fun i bits => bits ||| (1 : UInt64) <<< i.toUInt64) 0

/-- For a difference it is enough to tell the positions that are left apart. -/
theorem collisionFree_diff {rules : ReferenceRules} {current target : Value} {budget : Nat}
    {f : List Nat → UInt64} (hc : current.WellFormed) (ht : target.WellFormed)
    (hf : ∀ l ∈ (preferenceOrder (diff current target)).sublists,
      ∀ l' ∈ (preferenceOrder (diff current target)).sublists, f l = f l' → l = l') :
    (Problem.mk rules.oracle (diff current target) budget fun s => f s.remaining).CollisionFree
      current := by
  intro s s' hs hs' hprint
  have hremaining : s.remaining = s'.remaining :=
    hf _ (List.mem_sublists.2 hs.sublist) _ (List.mem_sublists.2 hs'.sublist) hprint
  refine ⟨?_, hremaining⟩
  rw [tree_of_reachable hc ht rfl hs, tree_of_reachable hc ht rfl hs', hremaining]
  exact Value.same_refl _

/-! ## A VLAN and its member -/

/-- A configuration with a VLAN and a member of it. -/
def vlanWithMember : Value :=
  .object [("VLAN", .object [("Vlan10", .empty)]),
    ("VLAN_MEMBER", .object [("Vlan10|Ethernet0", .empty)])]

theorem diff_vlanWithMember : diff noVlans vlanWithMember = [addVlan, addMember] := rfl

theorem keeps_vlanWithMember : ReferenceRules.switch.Keeps noVlans vlanWithMember := by
  have hnone : ∀ rule ∈ ReferenceRules.switch.references, (noVlans.get? rule.table).isNone := by
    decide
  intro rule hrule key a b ha
  simp [Value.memberAt, Option.isNone_iff_eq_none.1 (hnone rule hrule)] at ha

theorem sort_vlanWithMember :
    ReferenceRules.switch.Layered ∧ noVlans.WellFormed ∧ vlanWithMember.WellFormed ∧
      ReferenceRules.switch.oracle noVlans = .ok () ∧
      ReferenceRules.switch.oracle vlanWithMember = .ok () ∧
      (diff noVlans vlanWithMember).length ≤ 2 ∧
      (Problem.mk ReferenceRules.switch.oracle (diff noVlans vlanWithMember) 2
        fun s => mask s.remaining).CollisionFree noVlans ∧
      ReferenceRules.switch.Keeps noVlans vlanWithMember ∧
      ∃ sorted, (Problem.mk ReferenceRules.switch.oracle (diff noVlans vlanWithMember) 2
        fun s => mask s.remaining).sort noVlans = .ok sorted := by
  have horder : preferenceOrder (diff noVlans vlanWithMember) = [0, 1] := by
    rw [diff_vlanWithMember]
    cbv
  have hc : noVlans.WellFormed := by decide
  have ht : vlanWithMember.WellFormed := by decide
  have hnow : ReferenceRules.switch.oracle noVlans = .ok () := rfl
  have hgoal : ReferenceRules.switch.oracle vlanWithMember = .ok () := rfl
  have hlength : (diff noVlans vlanWithMember).length ≤ 2 := by
    rw [diff_vlanWithMember]
    decide
  have hfree : (Problem.mk ReferenceRules.switch.oracle (diff noVlans vlanWithMember) 2
      fun s => mask s.remaining).CollisionFree noVlans := by
    refine collisionFree_diff hc ht ?_
    rw [horder]
    decide
  have hplan := sort_diff_iff.2 ReferenceRules.switch noVlans vlanWithMember 2
    (fun s => mask s.remaining) ReferenceRules.layered_switch hc ht hnow hgoal hlength hfree
  exact ⟨ReferenceRules.layered_switch, hc, ht, hnow, hgoal, hlength, hfree, keeps_vlanWithMember,
    hplan.2 keeps_vlanWithMember⟩

/-! ## A number that is written in two ways -/

/-- A configuration with a profile that is named after a zero, and an entry that uses it. -/
def zeroProfile (negative : Bool) (name : String) : Value :=
  .object [
    ("BUFFER_PG", .object [
      ("Ethernet0|0", .object [("profile", .scalar (.number (.double (.zero negative))))])]),
    ("BUFFER_PROFILE", .object [(name, .empty)])]

/-- The field is not moved from the one zero to the other, since they are equal, and goes on naming the
profile that has to be removed. -/
theorem exists_unsortable_diff :
    ¬ ∀ (rules : ReferenceRules) (current target : Value) (budget : Nat) (fingerprint : Fingerprint),
      rules.Layered → current.WellFormed → target.WellFormed →
      rules.oracle current = .ok () → rules.oracle target = .ok () →
      (diff current target).length ≤ budget →
      (Problem.mk rules.oracle (diff current target) budget fingerprint).CollisionFree current →
      ∃ sorted, (Problem.mk rules.oracle (diff current target) budget fingerprint).sort current
        = .ok sorted := by
  intro hall
  have hc : (zeroProfile false "0.0").WellFormed := by decide
  have ht : (zeroProfile true "-0.0").WellFormed := by decide
  have hnow : ReferenceRules.switch.oracle (zeroProfile false "0.0") = .ok () := rfl
  have hgoal : ReferenceRules.switch.oracle (zeroProfile true "-0.0") = .ok () := rfl
  have hdiff : diff (zeroProfile false "0.0") (zeroProfile true "-0.0") = [
      .remove (.ofNames ["BUFFER_PROFILE", "0.0"]) .empty,
      .add (.ofNames ["BUFFER_PROFILE", "-0.0"]) .empty] := rfl
  have horder : preferenceOrder (diff (zeroProfile false "0.0") (zeroProfile true "-0.0"))
      = [0, 1] := by
    rw [hdiff]
    cbv
  obtain ⟨sorted, hsorted⟩ := hall ReferenceRules.switch (zeroProfile false "0.0")
    (zeroProfile true "-0.0") 2 (fun s => mask s.remaining) ReferenceRules.layered_switch hc ht hnow
    hgoal (by rw [hdiff]; decide) (collisionFree_diff hc ht (by rw [horder]; decide))
  have hlast := accepts_settled_of_sort hc ht rfl rfl hnow hsorted
  have hkeeps := (ReferenceRules.accepts_settled_iff hc ht
    ((ReferenceRules.oracle_eq_ok_iff ht).1 hgoal)).1 hlast
  have hentry := hkeeps ⟨"BUFFER_PG", "profile", "BUFFER_PROFILE"⟩ (by decide) "Ethernet0|0"
    (.scalar (.number (.double (.zero false)))) (.scalar (.number (.double (.zero true)))) rfl rfl rfl
    "0.0" (by decide)
  have hnone : ReferenceRules.hasEntry (zeroProfile true "-0.0") "BUFFER_PROFILE" "0.0" = false := rfl
  rw [hnone] at hentry
  cases hentry

end Problem

end ConfigUpdate
