import ConfigUpdate.Proofs.DiffPlan
import ConfigUpdate.Proofs.MoveCongruence
import ConfigUpdate.Proofs.SearchOrder

/-!
# Searches that take equal states for one

States are equal (`SearchState.Same`) if their trees are and the same moves are left. The fingerprint in use
does not tell equal states apart (`SearchState.respects_fingerprint`), although an oracle may do so by how
their numbers are written. A search in which only equal states share a fingerprint finds the least order if
equal states allow the same moves (`Problem.EqualStatesAgree`), as they do under an oracle that does not look
at how numbers are written, and in a search for an order of a difference: `Problem.sort_least`. Where they do
not, an order can be missed: `Problem.exists_missed_order`.
-/

namespace ConfigUpdate

/-- States that are equal: their trees are, and the same moves are left. -/
def SearchState.Same (s s' : SearchState) : Prop :=
  s.tree.same s'.tree = true ∧ s.remaining = s'.remaining

/-- Equal states share the fingerprint. -/
def Fingerprint.Respects (f : Fingerprint) : Prop :=
  ∀ s s', s.Same s' → f s = f s'

/-- The oracle judges equal trees alike. -/
def Oracle.Respects (oracle : Oracle) : Prop :=
  ∀ v w : Value, v.same w = true → oracle v = .ok () → oracle w = .ok ()

namespace SearchState

theorem Same.symm {s s' : SearchState} (h : s.Same s') : s'.Same s :=
  ⟨Value.same_symm h.1, h.2.symm⟩

/-- Equal states taken for one. -/
instance setoid : Setoid SearchState where
  r := Same
  iseqv := {
    refl := fun s => ⟨Value.same_refl s.tree, rfl⟩
    symm := Same.symm
    trans := fun h h' => ⟨Value.same_trans h.1 h'.1, h.2.trans h'.2⟩ }

/-- The fingerprint in use does not tell equal states apart. -/
theorem respects_fingerprint : fingerprint.Respects := by
  rintro s s' ⟨htree, hremaining⟩
  simp only [fingerprint, Value.mix_eq_of_same htree, hremaining]

end SearchState

namespace Problem

/-- From two states that the search can get to and that are equal, the same moves lead on. -/
def EqualStatesAgree (p : Problem) (current : Value) : Prop :=
  ∀ s s', p.Reachable current s → p.Reachable current s' → s.Same s' →
    ∀ i ∈ s.remaining, (p.next? s i).isSome = (p.next? s' i).isSome

variable {p : Problem} {current target : Value} {s s' next next' : SearchState} {i : Nat}

/-- A move makes equal states of two equal ones. -/
theorem same_next (h : s.Same s') (hnext : p.next? s i = some next) (hnext' : p.next? s' i = some next') :
    next.Same next' := by
  obtain ⟨m, after, hm, hcheck, hrun, -, rfl⟩ := next?_eq_some_iff.1 hnext
  obtain ⟨m', after', hm', hcheck', hrun', -, rfl⟩ := next?_eq_some_iff.1 hnext'
  obtain rfl : m = m' := Option.some.inj (hm.symm.trans hm')
  have hresults := Move.sameOption_step (m := m) h.1
  rw [Move.step_eq_ok_iff.2 ⟨hcheck, hrun⟩, Move.step_eq_ok_iff.2 ⟨hcheck', hrun'⟩] at hresults
  exact ⟨hresults, congrArg (List.erase · i) h.2⟩

/-- The move that leads on from a state leads on from an equal one. -/
theorem EqualStatesAgree.exists_next (hagree : p.EqualStatesAgree current) (hs : p.Reachable current s)
    (hs' : p.Reachable current s') (h : s.Same s') (hi : i ∈ s.remaining)
    (hnext : p.next? s i = some next) : ∃ next', p.next? s' i = some next' ∧ next.Same next' := by
  obtain ⟨next', hnext'⟩ := Option.isSome_iff_exists.1
    (hagree s s' hs hs' h i hi ▸ Option.isSome_iff_exists.2 ⟨_, hnext⟩)
  exact ⟨next', hnext', same_next h hnext hnext'⟩

/-- An order that leads from a state to the end does so from an equal one. -/
theorem completes_of_same (hagree : p.EqualStatesAgree current) {order : List Nat}
    (h : p.Completes s order) (hs : p.Reachable current s) (hs' : p.Reachable current s')
    (hsame : s.Same s') : p.Completes s' order := by
  induction h generalizing s' with
  | done hdone => exact .done (hsame.2 ▸ hdone)
  | step hi hnext _ ih =>
    obtain ⟨next', hnext', hnexts⟩ := hagree.exists_next hs hs' hsame hi hnext
    have hi' := hsame.2 ▸ hi
    exact .step hi' hnext' (ih (.step hs hi hnext) (.step hs' hi' hnext') hnexts)

theorem printsAgree_of_agree (hfree : p.CollisionFree current) (hagree : p.EqualStatesAgree current) :
    p.PrintsAgree current := by
  intro s s' hs hs' hprint
  have hsame : s.Same s' := hfree s s' hs hs' hprint
  exact ⟨hsame.2, fun order horder => completes_of_same hagree horder hs hs' hsame⟩

/-! ## Where equal states agree -/

theorem isSome_next?_of_same (horacle : p.oracle.Respects) (h : s.Same s')
    (hsome : (p.next? s i).isSome) : (p.next? s' i).isSome := by
  obtain ⟨next, hnext⟩ := Option.isSome_iff_exists.1 hsome
  obtain ⟨m, after, hm, hcheck, hrun, haccepted, -⟩ := next?_eq_some_iff.1 hnext
  have hresults := Move.sameOption_step (m := m) h.1
  rw [Move.step_eq_ok_iff.2 ⟨hcheck, hrun⟩] at hresults
  cases hstep : m.step s'.tree with
  | error e => exact (hstep ▸ hresults).elim
  | ok after' =>
    rw [hstep] at hresults
    obtain ⟨hcheck', hrun'⟩ := Move.step_eq_ok_iff.1 hstep
    exact Option.isSome_iff_exists.2 ⟨_, next?_eq_some_iff.2
      ⟨m, after', hm, hcheck', hrun', horacle _ _ hresults haccepted, rfl⟩⟩

theorem equalStatesAgree_of_oracle (horacle : p.oracle.Respects) : p.EqualStatesAgree current := by
  intro s s' _ _ h i _
  exact Bool.eq_iff_iff.2 ⟨isSome_next?_of_same horacle h, isSome_next?_of_same horacle h.symm⟩

/-- In a search for an order of a difference the moves that are left determine the tree. -/
theorem equalStatesAgree_diff (hc : current.WellFormed) (ht : target.WellFormed)
    (hmoves : p.moves = diff current target) : p.EqualStatesAgree current := by
  intro s s' hs hs' h i _
  have htree : s.tree = s'.tree := by
    rw [tree_of_reachable hc ht hmoves hs, tree_of_reachable hc ht hmoves hs', h.2]
  simp only [next?, htree, h.2]

/-! ## The least order -/

/-- What a search that is not cut off returns, if only equal states have the same fingerprint. It agrees with
trying all orders if equal states allow the same moves, as they do if the oracle judges equal trees alike and
if the moves are a difference. Without any order it fails in every case. -/
theorem sort_least (p : Problem) (current : Value) (hfree : p.CollisionFree current)
    (hbudget : (p.search current).1 ≠ .outOfBudget) :
    (p.EqualStatesAgree current → p.FindsLeast current) ∧
      (p.oracle.Respects → p.FindsLeast current) ∧
      (∀ target, current.WellFormed → target.WellFormed → p.moves = diff current target →
        p.FindsLeast current) ∧
      ((¬ ∃ order, p.ValidOrder current order) → ∃ e, p.sort current = .error e) := by
  have hleast : p.EqualStatesAgree current → p.FindsLeast current := fun hagree =>
    findsLeast (printsAgree_of_agree hfree hagree) hbudget
  exact ⟨hleast, fun horacle => hleast (equalStatesAgree_of_oracle horacle),
    fun _ hc ht hmoves => hleast (equalStatesAgree_diff hc ht hmoves), exists_error_of_no_order⟩

/-- The removal of a VLAN. -/
def dropVlan : Move := .remove (.ofNames ["VLAN", "Vlan10"]) .empty

/-- The removal of the member of the VLAN, which has to be made before. -/
def dropMember : Move := .remove (.ofNames ["VLAN_MEMBER", "Vlan10|Ethernet0"]) .empty

/-- The removal of the VLAN and its member, which the difference gives in the order in which it cannot be
made. -/
def removeVlan : Problem where
  oracle := ReferenceRules.switch.oracle
  moves := diff vlanWithMember noVlans
  budget := 2
  fingerprint s := mask s.remaining

theorem diff_removeVlan : diff vlanWithMember noVlans = [dropVlan, dropMember] := rfl

theorem preferenceOrder_removeVlan : preferenceOrder (diff vlanWithMember noVlans) = [0, 1] := by
  rw [diff_removeVlan]
  cbv

theorem search_removeVlan : (removeVlan.search vlanWithMember).1 = .found [1, 0] := by
  have horder := preferenceOrder_removeVlan
  rw [diff_removeVlan] at horder
  have hall : mask [0, 1] = 3 := by decide
  have hvlan : mask [0] = 1 := by decide
  have hnone : mask [] = 0 := by decide
  have hcheck : dropVlan.check vlanWithMember = .ok () := rfl
  obtain ⟨orphan, hrun, r, hrejected⟩ : ∃ tree, dropVlan.run vlanWithMember = .ok tree ∧
      ∃ r, ReferenceRules.switch.oracle tree = .error r := ⟨_, rfl, _, rfl⟩
  obtain ⟨tree, hcheck₁, hrun₁, haccepted₁, hcheck₂, last, hrun₂, haccepted₂⟩ :
      ∃ tree, dropMember.check vlanWithMember = .ok () ∧ dropMember.run vlanWithMember = .ok tree ∧
        ReferenceRules.switch.oracle tree = .ok () ∧ dropVlan.check tree = .ok () ∧
        ∃ last, dropVlan.run tree = .ok last ∧ ReferenceRules.switch.oracle last = .ok () :=
    ⟨_, rfl, rfl, rfl, rfl, _, rfl, rfl⟩
  simp [search, searchFrom, tryEach, removeVlan, diff_removeVlan, horder, hcheck, hrun, hrejected,
    hcheck₁, hrun₁, haccepted₁, hcheck₂, hrun₂, haccepted₂, Memory.start, Memory.hold, Memory.enter,
    Memory.reject, hall, hvlan, hnone]

theorem sort_least_removeVlan :
    removeVlan.CollisionFree vlanWithMember ∧ (removeVlan.search vlanWithMember).1 ≠ .outOfBudget ∧
      removeVlan.EqualStatesAgree vlanWithMember ∧ removeVlan.FindsLeast vlanWithMember := by
  have hc : vlanWithMember.WellFormed := by decide
  have ht : noVlans.WellFormed := by decide
  have hfree : removeVlan.CollisionFree vlanWithMember := by
    refine collisionFree_diff hc ht ?_
    rw [preferenceOrder_removeVlan]
    decide
  have hbudget : (removeVlan.search vlanWithMember).1 ≠ .outOfBudget := by
    rw [search_removeVlan]
    decide
  have hagree : removeVlan.EqualStatesAgree vlanWithMember := equalStatesAgree_diff hc ht rfl
  exact ⟨hfree, hbudget, hagree, (sort_least removeVlan vlanWithMember hfree hbudget).1 hagree⟩

/-! ## A zero that is written in two ways -/

/-- A field that holds the zero of some sign. -/
def zeroField (negative : Bool) : Value :=
  .object [("profile", .scalar (.number (.double (.zero negative))))]

/-- Two entries whose fields name the profiles of the zeros that they hold. -/
def zeroEntries (first second : Bool) : Value :=
  .object [("Ethernet0|0", zeroField first), ("Ethernet0|1", zeroField second)]

/-- The two entries with some profiles. -/
def zeroTree (first second : Bool) (profiles : Value) : Value :=
  .object [("BUFFER_PG", zeroEntries first second), ("BUFFER_PROFILE", profiles)]

/-- The profiles that are named after the two zeros. -/
def bothProfiles : Value := .object [("-0.0", .empty), ("0.0", .empty)]

/-- The profile that is named after the positive zero. -/
def positiveProfile : Value := .object [("0.0", .empty)]

/-- Writes the positive zero into the field of the first entry. -/
def writeFirst : Move :=
  .replace (.ofNames ["BUFFER_PG", "Ethernet0|0", "profile"])
    (.scalar (.number (.double (.zero false)))) (.scalar (.number (.double (.zero false))))

/-- Writes both entries, with the negative zero in the first one. -/
def writeEntries : Move :=
  .replace (.ofNames ["BUFFER_PG"]) (zeroEntries false false) (zeroEntries true false)

/-- Removes the profile that is named after the negative zero. -/
def removeNegative : Move := .remove (.ofNames ["BUFFER_PROFILE", "-0.0"]) .empty

/-- Writes other profiles over the one that is left after the removal. -/
def writeProfiles (profiles : Value) : Move :=
  .replace (.ofNames ["BUFFER_PROFILE"]) positiveProfile profiles

/-- Four moves of which the third can only be made when no field names the negative zero, which takes the
second and the first one in this order, and the fourth only after the third. -/
def twoZeros (profiles : Value) : Problem where
  oracle := ReferenceRules.switch.oracle
  moves := [writeFirst, writeEntries, removeNegative, writeProfiles profiles]
  budget := 5
  fingerprint s := mask s.remaining

section TwoZeros

variable (profiles : Value) (first second : Bool)

theorem preferenceOrder_twoZeros : preferenceOrder (twoZeros profiles).moves = [0, 1, 2, 3] := by
  cbv

theorem check_writeFirst (ps : Value) : writeFirst.check (zeroTree first second ps) = .ok () := by
  cases first <;> rfl

theorem run_writeFirst (ps : Value) :
    writeFirst.run (zeroTree first second ps) = .ok (zeroTree false second ps) := rfl

theorem check_writeEntries (ps : Value) : writeEntries.check (zeroTree first second ps) = .ok () := by
  cases first <;> cases second <;> rfl

theorem run_writeEntries (ps : Value) :
    writeEntries.run (zeroTree first second ps) = .ok (zeroTree true false ps) := rfl

theorem check_removeNegative : removeNegative.check (zeroTree first second bothProfiles) = .ok () := rfl

theorem run_removeNegative :
    removeNegative.run (zeroTree first second bothProfiles) = .ok (zeroTree first second positiveProfile) :=
  rfl

theorem check_writeProfiles :
    (writeProfiles profiles).check (zeroTree first second positiveProfile) = .ok () := rfl

theorem run_writeProfiles (ps : Value) :
    (writeProfiles profiles).run (zeroTree first second ps) = .ok (zeroTree first second profiles) := rfl

theorem exists_check_writeProfiles : ∃ e,
    (writeProfiles profiles).check (zeroTree first second bothProfiles) = .error e := ⟨_, rfl⟩

theorem oracle_both : ReferenceRules.switch.oracle (zeroTree first second bothProfiles) = .ok () := by
  cases first <;> cases second <;> rfl

theorem oracle_positive : ReferenceRules.switch.oracle (zeroTree false false positiveProfile) = .ok () := rfl

theorem exists_oracle_negative (h : (first || second) = true) : ∃ r,
    ReferenceRules.switch.oracle (zeroTree first second positiveProfile) = .error r := by
  cases first <;> cases second <;> first | exact ⟨_, rfl⟩ | cases h

/-- When both of the first two moves have been made, in whatever order, the search takes the entries for the
same, and so it never makes the removal. -/
theorem search_twoZeros : ((twoZeros profiles).search (zeroTree true true bothProfiles)).1 = .deadEnd ∧
    3 ∉ ((twoZeros profiles).search (zeroTree true true bothProfiles)).2.held := by
  obtain ⟨_, hnn⟩ := exists_oracle_negative true true rfl
  obtain ⟨_, hnp⟩ := exists_oracle_negative true false rfl
  obtain ⟨_, hpn⟩ := exists_oracle_negative false true rfl
  obtain ⟨_, hnn'⟩ := exists_check_writeProfiles profiles true true
  obtain ⟨_, hnp'⟩ := exists_check_writeProfiles profiles true false
  obtain ⟨_, hpn'⟩ := exists_check_writeProfiles profiles false true
  have horder := preferenceOrder_twoZeros profiles
  simp only [twoZeros] at horder
  have hall : mask [0, 1, 2, 3] = 15 := by decide
  have hwritten : mask [1, 2, 3] = 14 := by decide
  have hwritten' : mask [0, 2, 3] = 13 := by decide
  have hboth : mask [2, 3] = 12 := by decide
  simp [search, searchFrom, tryEach, twoZeros, horder, check_writeFirst, run_writeFirst, check_writeEntries,
    run_writeEntries, check_removeNegative, run_removeNegative, oracle_both, hnn, hnp, hpn, hnn', hnp', hpn',
    Memory.start, Memory.hold, Memory.enter, Memory.reject, Memory.fail, hall, hwritten, hwritten', hboth]

/-- The profiles in a tree are known from the moves that are left. -/
theorem reachable_twoZeros {s : SearchState}
    (h : (twoZeros profiles).Reachable (zeroTree true true bothProfiles) s) :
    (2 ∈ s.remaining → 3 ∈ s.remaining) ∧ ∃ first second, s.tree = zeroTree first second
      (if 2 ∈ s.remaining then bothProfiles else if 3 ∈ s.remaining then positiveProfile else profiles) := by
  induction h with
  | start =>
    rw [preferenceOrder_twoZeros]
    exact ⟨by decide, true, true, rfl⟩
  | @step s next i hs hi hnext ih =>
    obtain ⟨hlater, first, second, htree⟩ := ih
    have hnodup : s.remaining.Nodup := hs.sublist.nodup (by rw [preferenceOrder_twoZeros]; decide)
    obtain ⟨m, after, hm, hcheck, hrun, -, rfl⟩ := next?_eq_some_iff.1 hnext
    rw [htree] at hrun hcheck
    match i, hm with
    | 0, hm =>
      obtain rfl : writeFirst = m := Option.some.inj hm
      rw [run_writeFirst] at hrun
      exact ⟨by simpa [List.mem_erase_of_ne] using hlater, false, second,
        by simp [← Except.ok.inj hrun, List.mem_erase_of_ne]⟩
    | 1, hm =>
      obtain rfl : writeEntries = m := Option.some.inj hm
      rw [run_writeEntries] at hrun
      exact ⟨by simpa [List.mem_erase_of_ne] using hlater, true, false,
        by simp [← Except.ok.inj hrun, List.mem_erase_of_ne]⟩
    | 2, hm =>
      obtain rfl : removeNegative = m := Option.some.inj hm
      rw [if_pos hi, run_removeNegative] at hrun
      exact ⟨by simp [hnodup.not_mem_erase], first, second,
        by simp [← Except.ok.inj hrun, hnodup.not_mem_erase, List.mem_erase_of_ne, hlater hi]⟩
    | 3, hm =>
      obtain rfl : writeProfiles profiles = m := Option.some.inj hm
      -- The fourth move does not find what it expects before the third one has been made.
      have hremoved : 2 ∉ s.remaining := by
        intro hleft
        obtain ⟨e, he⟩ := exists_check_writeProfiles profiles first second
        rw [if_pos hleft, he] at hcheck
        cases hcheck
      rw [run_writeProfiles] at hrun
      exact ⟨fun hleft => absurd (List.mem_of_mem_erase hleft) hremoved, first, second,
        by simp [← Except.ok.inj hrun, hnodup.not_mem_erase, List.mem_erase_of_ne, hremoved]⟩

theorem same_zeroTree (first' second' : Bool) {ps : Value} :
    (zeroTree first second ps).same (zeroTree first' second' ps) = true := by
  have hzeros : ∀ a b : Bool, (zeroField a).same (zeroField b) = true := by decide
  simp [zeroTree, zeroEntries, Value.same, Value.sameMembers, hzeros, Value.same_refl]

theorem collisionFree_twoZeros :
    (twoZeros profiles).CollisionFree (zeroTree true true bothProfiles) := by
  intro s s' hs hs' hprint
  have hinjective : ∀ l ∈ [0, 1, 2, 3].sublists, ∀ l' ∈ [0, 1, 2, 3].sublists, mask l = mask l' → l = l' := by
    decide
  have hsub := hs.sublist
  have hsub' := hs'.sublist
  rw [preferenceOrder_twoZeros] at hsub hsub'
  have hremaining : s.remaining = s'.remaining :=
    hinjective _ (List.mem_sublists.2 hsub) _ (List.mem_sublists.2 hsub') hprint
  obtain ⟨-, first, second, htree⟩ := reachable_twoZeros profiles hs
  obtain ⟨-, first', second', htree'⟩ := reachable_twoZeros profiles hs'
  rw [htree, htree', hremaining]
  exact ⟨same_zeroTree _ _ _ _, rfl⟩

end TwoZeros

/-- Profiles among which there still is the one that the fields name. -/
def moreProfiles : Value := .object [("0.0", .empty), ("1.0", .empty)]

theorem validOrder_twoZeros :
    (twoZeros moreProfiles).ValidOrder (zeroTree true true bothProfiles) [1, 0, 2, 3] := by
  have haccepted : ReferenceRules.switch.oracle (zeroTree false false moreProfiles) = .ok () := rfl
  refine ⟨by decide, zeroTree false false moreProfiles, ?_⟩
  exact .cons (check_writeEntries _ _ _) (run_writeEntries _ _ _) (oracle_both _ _)
    (.cons (check_writeFirst _ _ _) (run_writeFirst _ _ _) (oracle_both _ _)
      (.cons (check_removeNegative _ _) (run_removeNegative _ _) oracle_positive
        (.cons (check_writeProfiles _ _ _) (run_writeProfiles _ _ _ _) haccepted (.nil _))))

/-- The entries after the first two moves are equal in both orders, and only after one of them the profile
can be removed. The search comes to the other one first, and takes the second one for known. -/
theorem exists_missed_order :
    ¬ ∀ (p : Problem) (current : Value), p.CollisionFree current →
      (p.search current).1 ≠ .outOfBudget → p.FindsLeast current := by
  intro hall
  have hdead := (search_twoZeros moreProfiles).1
  obtain ⟨least, -, -, hsort⟩ := (hall (twoZeros moreProfiles) (zeroTree true true bothProfiles)
    (collisionFree_twoZeros _) (by rw [hdead]; decide)).1 ⟨_, validOrder_twoZeros⟩
  rw [sort_of_deadEnd hdead] at hsort
  cases hsort

end Problem

end ConfigUpdate
