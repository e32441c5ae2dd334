import ConfigUpdate.Proofs.PreferenceOrder
import ConfigUpdate.Proofs.SearchStep

/-!
# Orders that a search finds can be carried out

The order of a search is read off the path from the first state to one without moves left. Along that
path every step is one of `Problem.next?`, whatever the search has skipped, given up or taken for a state
it knows. So an order that is found is a run under the oracle, for any fingerprint.
-/

namespace ConfigUpdate

namespace Problem

variable {p : Problem}

/-- An order found from a state starts with a candidate that leads to a next state, and goes on with an
order found from there. -/
theorem tryEach_found {below : SearchState → Memory → Verdict × Memory} {s : SearchState}
    {is order : List Nat} {mem mem' : Memory}
    (h : p.tryEach below s is mem = (.found order, mem')) :
    ∃ i ∈ is, ∃ next rest mem₁,
      p.next? s i = some next ∧ below next mem₁ = (.found rest, mem') ∧ order = i :: rest := by
  induction is generalizing mem with
  | nil => simp [tryEach] at h
  | cons i is ih =>
    -- The candidates behind `i` are tried whenever `i` does not end the search.
    have later : ∀ {mem₁}, p.tryEach below s is mem₁ = (.found order, mem') →
        ∃ j ∈ i :: is, ∃ next rest mem₁,
          p.next? s j = some next ∧ below next mem₁ = (.found rest, mem') ∧ order = j :: rest := by
      intro mem₁ h₁
      obtain ⟨j, hj, hrest⟩ := ih h₁
      exact ⟨j, List.mem_cons_of_mem i hj, hrest⟩
    obtain ⟨heq, -⟩ | ⟨next, entered, hnext, -, -, ⟨-, heq⟩ | ⟨-, ⟨rest, mem₁, hbelow, heq⟩ |
      ⟨_, -, heq⟩ | ⟨_, -, heq⟩⟩⟩ := p.tryEach_outcomes below s i is mem <;> rw [heq] at h
    · exact later h
    · cases congrArg Prod.fst h
    · obtain ⟨horder, rfl⟩ := Prod.mk.inj h
      cases horder
      exact ⟨i, List.mem_cons_self, next, rest, entered, hnext, hbelow, rfl⟩
    · exact later h
    · cases congrArg Prod.fst h

theorem searchFrom_found {n : Nat} {s : SearchState} {order : List Nat} {mem mem' : Memory}
    (hn : s.remaining.length = n) (h : p.searchFrom n s mem = (.found order, mem')) :
    order.Perm s.remaining ∧
      ∃ last, Move.Run p.oracle s.tree (order.filterMap (p.moves[·]?)) last := by
  induction n generalizing s order mem with
  | zero =>
    have horder : order = [] := by simpa [searchFrom, eq_comm] using congrArg Prod.fst h
    subst horder
    rw [List.length_eq_zero_iff.1 hn]
    exact ⟨List.Perm.refl _, s.tree, .nil s.tree⟩
  | succ n ih =>
    obtain ⟨i, hi, next, rest, mem₁, hnext, hbelow, rfl⟩ := tryEach_found h
    obtain ⟨m, after, hm, hc, hr, ho, rfl⟩ := next?_eq_some_iff.1 hnext
    have hlen : (s.remaining.erase i).length = n := by
      rw [List.length_erase_of_mem hi, hn]
      rfl
    obtain ⟨hperm, last, hrun⟩ := ih hlen hbelow
    refine ⟨(hperm.cons i).trans (List.perm_cons_erase hi).symm, last, ?_⟩
    rw [List.filterMap_cons_some hm]
    exact .cons hc hr ho hrun

/-- Looking up all positions of a list in order gives the list. -/
theorem filterMap_getElem?_range (moves : List Move) :
    (List.range moves.length).filterMap (moves[·]?) = moves := by
  induction moves with
  | nil => rfl
  | cons m ms ih => simp [List.range_succ_eq_map, List.filterMap_map, ih]

theorem perm_of_positions {moves : List Move} {order : List Nat}
    (h : order.Perm (List.range moves.length)) : (order.filterMap (moves[·]?)).Perm moves := by
  have hmoves := h.filterMap (moves[·]?)
  rwa [filterMap_getElem?_range] at hmoves

/-- A sorted plan is read off an order of all positions, and it is a run under the oracle. -/
theorem order_of_sort {current : Value} {sorted : List Move} (h : p.sort current = .ok sorted) :
    ∃ order : List Nat, order.Perm (List.range p.moves.length) ∧ sorted = order.filterMap (p.moves[·]?) ∧
      ∃ last, Move.Run p.oracle current sorted last := by
  have hpref := preferenceOrder_perm p.moves
  rw [sort_eq] at h
  split at h
  · rename_i order mem hsearch
    cases h
    have hlen : (preferenceOrder p.moves).length = p.moves.length := by
      rw [hpref.length_eq, List.length_range]
    obtain ⟨hperm, hrun⟩ := searchFrom_found hlen hsearch
    exact ⟨order, hperm.trans hpref, rfl, hrun⟩
  · cases h
  · cases h

/-- Sorted plans are sound: the moves are the given ones, none of them lost and none made twice, and
they can be made one after another so that the oracle accepts every tree on the way. The fingerprint may
be any function of the states, so collisions do no harm. -/
theorem sort_sound (p : Problem) (current : Value) (sorted : List Move)
    (h : p.sort current = .ok sorted) :
    sorted.Perm p.moves ∧ ∃ last, Move.Run p.oracle current sorted last := by
  obtain ⟨order, hperm, rfl, hrun⟩ := order_of_sort h
  exact ⟨perm_of_positions hperm, hrun⟩

/-! ## An order that has to be found -/

/-- The addition of a VLAN. -/
def addVlan : Move := .add (.ofNames ["VLAN", "Vlan10"]) .empty

/-- The addition of a member to the VLAN, which has to be there before. -/
def addMember : Move := .add (.ofNames ["VLAN_MEMBER", "Vlan10|Ethernet0"]) .empty

/-- The two additions, given in the order in which they cannot be made. -/
def memberFirst : Problem where
  oracle := ReferenceRules.switch.oracle
  moves := [addMember, addVlan]
  budget := 2
  fingerprint s := s.remaining.length.toUInt64

/-- A configuration without VLANs. -/
def noVlans : Value := .object [("VLAN", .empty), ("VLAN_MEMBER", .empty)]

theorem sort_memberFirst : memberFirst.sort noVlans = .ok [addVlan, addMember] := by
  have horder : preferenceOrder [addMember, addVlan] = [0, 1] := by cbv
  have hcheck : addMember.check noVlans = .ok () := rfl
  obtain ⟨orphan, hrun, r, hrejected⟩ : ∃ tree, addMember.run noVlans = .ok tree ∧
      ∃ r, ReferenceRules.switch.oracle tree = .error r := ⟨_, rfl, _, rfl⟩
  obtain ⟨tree, hcheck₁, hrun₁, haccepted₁, hcheck₂, last, hrun₂, haccepted₂⟩ :
      ∃ tree, addVlan.check noVlans = .ok () ∧ addVlan.run noVlans = .ok tree ∧
        ReferenceRules.switch.oracle tree = .ok () ∧ addMember.check tree = .ok () ∧
        ∃ last, addMember.run tree = .ok last ∧ ReferenceRules.switch.oracle last = .ok () :=
    ⟨_, rfl, rfl, rfl, rfl, _, rfl, rfl⟩
  simp [sort, search, searchFrom, tryEach, memberFirst, horder, hcheck, hrun, hrejected, hcheck₁,
    hrun₁, haccepted₁, hcheck₂, hrun₂, haccepted₂, Memory.start, Memory.hold, Memory.enter,
    Memory.reject]

theorem sort_sound_memberFirst :
    memberFirst.sort noVlans = .ok [addVlan, addMember] ∧
      [addVlan, addMember].Perm memberFirst.moves ∧
      ∃ last, Move.Run memberFirst.oracle noVlans [addVlan, addMember] last :=
  ⟨sort_memberFirst, sort_sound memberFirst noVlans [addVlan, addMember] sort_memberFirst⟩

end Problem

end ConfigUpdate
