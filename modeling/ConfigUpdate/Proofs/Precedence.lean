import ConfigUpdate.Proofs.Acyclic
import ConfigUpdate.Proofs.PreferenceOrder
import Mathlib.Data.Prod.Lex

/-!
# The preferred order is the least that respects precedence

An addition has to precede the removals from its entity, and a removal those of its parents. Down this
relation a rank descends, so it has no cycle, in every round some move waits for none, and the rounds place
all moves without ever falling back on the order as it stands (`placedInTurn_place`). Each round takes the
first position that is free, so the order is the least of those that respect precedence:
`preferenceOrder_least`.
-/

namespace ConfigUpdate

/-! ## Precedence -/

/-- Whether the move at one position has to precede the move at another one: an addition a removal from the
same entity, and a removal the removal of a parent. -/
def HasToPrecede (moves : List Move) (i j : Nat) : Prop :=
  i ≠ j ∧ ∃ first second, moves[i]? = some first ∧ moves[j]? = some second ∧ second.kind = .remove ∧
    ((first.kind = .add ∧ ∃ entity, first.entity? = some entity ∧ second.entity? = some entity) ∨
      (first.kind = .remove ∧ first.removedBefore second = true))

/-- How many components the key of the entry has, where the path leads to one or below it. -/
def Pointer.components (p : Pointer) : Nat :=
  (p.entryKey?.map fun key => (EntryKey.ofText key).components.length).getD 0

/-- What descends from a move to those that it has to precede: additions stand above removals, children above
their parents. A child has more components in its key, or as many of them and a longer path. -/
def Move.rank (m : Move) : Nat ×ₗ Nat ×ₗ Nat :=
  toLex (if m.kind = .remove then 0 else 1, toLex (m.path.components, m.path.length))

/-- The entity of a move is the table and the base of the key of the entry that its path leads to or below. -/
theorem Move.entity?_eq_some_iff {m : Move} {table base : String} : m.entity? = some (table, base) ↔
    m.path.table? = some table ∧ ∃ key, m.path.entryKey? = some key ∧ (EntryKey.ofText key).base = base := by
  simp only [Move.entity?, bind, Option.bind_eq_some_iff, pure, Option.some.injEq, Prod.mk.injEq]
  constructor
  · rintro ⟨_, htable, key, hkey, rfl, hbase⟩
    exact ⟨htable, key, hkey, hbase⟩
  · rintro ⟨htable, key, hkey, hbase⟩
    exact ⟨table, htable, key, hkey, rfl, hbase⟩

/-- An addition has to precede the removals in its table of keys with the same base. -/
theorem hasToPrecede_of_add_iff {moves : List Move} {i j : Nat} {first second : Move}
    (hi : moves[i]? = some first) (hj : moves[j]? = some second) (hfirst : first.kind = .add)
    (hsecond : second.kind = .remove) :
    HasToPrecede moves i j ↔ ∃ table key key', first.path.table? = some table ∧
      second.path.table? = some table ∧ first.path.entryKey? = some key ∧
      second.path.entryKey? = some key' ∧ (EntryKey.ofText key).base = (EntryKey.ofText key').base := by
  constructor
  · rintro ⟨-, first', second', hi', hj', -, hedge⟩
    obtain rfl : first = first' := Option.some.inj (hi.symm.trans hi')
    obtain rfl : second = second' := Option.some.inj (hj.symm.trans hj')
    obtain ⟨-, ⟨table, base⟩, hentity, hentity'⟩ | ⟨hremove, -⟩ := hedge
    · obtain ⟨htable, key, hkey, hbase⟩ := Move.entity?_eq_some_iff.1 hentity
      obtain ⟨htable', key', hkey', hbase'⟩ := Move.entity?_eq_some_iff.1 hentity'
      exact ⟨table, key, key', htable, htable', hkey, hkey', hbase.trans hbase'.symm⟩
    · rw [hfirst] at hremove
      cases hremove
  · rintro ⟨table, key, key', htable, htable', hkey, hkey', hbase⟩
    have hne : i ≠ j := by
      rintro rfl
      obtain rfl : first = second := Option.some.inj (hi.symm.trans hj)
      rw [hfirst] at hsecond
      cases hsecond
    exact ⟨hne, first, second, hi, hj, hsecond, .inl ⟨hfirst, (table, (EntryKey.ofText key).base),
      Move.entity?_eq_some_iff.2 ⟨htable, key, hkey, rfl⟩,
      Move.entity?_eq_some_iff.2 ⟨htable', key', hkey', hbase.symm⟩⟩⟩

section Rank

variable {first second : Move}

theorem precedes_iff : first.precedes second = true ↔ second.kind = .remove ∧
    ((first.kind = .add ∧ ∃ entity, first.entity? = some entity ∧ second.entity? = some entity) ∨
      (first.kind = .remove ∧ first.removedBefore second = true)) := by
  simp only [Move.precedes, Bool.and_eq_true, beq_iff_eq]
  refine and_congr_right fun _ => ?_
  cases first.kind with
  | add =>
    simp only [Bool.and_eq_true, Option.isSome_iff_exists, beq_iff_eq, true_and, reduceCtorEq, false_and,
      or_false]
    constructor
    · rintro ⟨⟨entity, hentity⟩, heq⟩
      exact ⟨entity, hentity, heq ▸ hentity⟩
    · rintro ⟨entity, hentity, hentity'⟩
      exact ⟨⟨entity, hentity⟩, hentity.trans hentity'.symm⟩
  | remove => simp
  | replace => simp

/-- A path that starts with another one has at least as many components in its key. -/
theorem components_le_of_startsWith {p q : Pointer} (h : p.startsWith q = true) :
    q.components ≤ p.components := by
  unfold Pointer.components
  cases hq : q.entryKey? with
  | none => exact Nat.zero_le _
  | some key =>
    obtain ⟨rest, hrest⟩ : q.map Step.name <+: p.map Step.name := List.isPrefixOf_iff_prefix.1 h
    have hp : p.entryKey? = some key := by
      simp only [Pointer.entryKey?, Pointer.segment?, ← List.getElem?_map] at hq ⊢
      rw [← hrest, List.getElem?_append_left (List.getElem?_eq_some_iff.1 hq).1, hq]
    rw [hp]

theorem rank_lt_of_removedBefore (hfirst : first.kind = .remove) (hsecond : second.kind = .remove)
    (h : first.removedBefore second = true) : second.rank < first.rank := by
  simp only [Move.rank, hfirst, hsecond, Prod.Lex.toLex_lt_toLex, lt_self_iff_false, if_true, true_and,
    false_or]
  rcases Bool.or_eq_true_iff.1 h with h | h
  · obtain ⟨hlength, hstarts⟩ := Bool.and_eq_true_iff.1 h
    have hlonger : second.path.length < first.path.length := by simpa using hlength
    rcases (components_le_of_startsWith hstarts).lt_or_eq with hlt | heq
    · exact .inl hlt
    · exact .inr ⟨heq, hlonger⟩
  · left
    obtain ⟨-, hkeys⟩ := Bool.and_eq_true_iff.1 h
    cases hchild : first.path.entryKey? with
    | none => simp [hchild] at hkeys
    | some child =>
      cases hparent : second.path.entryKey? with
      | none => simp [hchild, hparent] at hkeys
      | some parent =>
        simp only [hchild, hparent, EntryKey.isAncestorOf, Bool.and_eq_true, decide_eq_true_eq] at hkeys
        simpa [Pointer.components, hchild, hparent] using hkeys.1

theorem rank_lt_of_precedes (h : first.precedes second = true) : second.rank < first.rank := by
  obtain ⟨hsecond, ⟨hfirst, -⟩ | ⟨hfirst, hbefore⟩⟩ := precedes_iff.1 h
  · simp [Move.rank, hfirst, hsecond, Prod.Lex.toLex_lt_toLex]
  · exact rank_lt_of_removedBefore hfirst hsecond hbefore

end Rank

section Loop

variable {moves : List Move}

theorem hasToPrecede_iff {i j : Nat} : HasToPrecede moves i j ↔
    i ≠ j ∧ ∃ first second, moves[i]? = some first ∧ moves[j]? = some second ∧
      first.precedes second = true := by
  simp only [HasToPrecede, precedes_iff]

/-- No move has to precede itself through others. -/
theorem acyclic_hasToPrecede (i : Nat) : ¬ Relation.TransGen (HasToPrecede moves) i i := by
  refine acyclic_of_rank (fun i => (moves[i]?.map Move.rank).getD (toLex (0, toLex (0, 0)))) ?_ i
  intro i j h
  obtain ⟨-, first, second, hi, hj, hprecedes⟩ := hasToPrecede_iff.1 h
  simpa [hi, hj] using rank_lt_of_precedes hprecedes

/-! ## Rounds -/

/-- The moves are placed one after another, each time the first one that waits for none, until none is
left. -/
inductive PlacedInTurn : List Waiting → List Nat → Prop
  | done : PlacedInTurn [] []
  | next {ws : List Waiting} {w : Waiting} {order : List Nat} :
    ws.find? (·.before.isEmpty) = some w → PlacedInTurn (afterPlacing w ws) order →
      PlacedInTurn ws (w.index :: order)

/-- Some moves wait in the order of their positions, each for those of them that have to precede it. -/
structure InWait (moves : List Move) (ws : List Waiting) : Prop where
  ascending : (ws.map (·.index)).Pairwise (· < ·)
  before_iff : ∀ w ∈ ws, ∀ i, i ∈ w.before ↔ HasToPrecede moves i w.index ∧ i ∈ ws.map (·.index)

theorem inWait_waitingOf (moves : List Move) : InWait moves (waitingOf moves) := by
  constructor
  · rw [map_index_waitingOf]
    exact List.pairwise_lt_range
  · intro w hw i
    obtain ⟨⟨second, j⟩, hj, rfl⟩ := List.mem_map.1 hw
    have hsecond : moves[j]? = some second := List.mem_zipIdx_iff_getElem?.1 hj
    rw [map_index_waitingOf, List.mem_range, hasToPrecede_iff]
    simp only [List.mem_filterMap, Option.ite_none_right_eq_some, Option.some.injEq]
    constructor
    · rintro ⟨⟨first, i'⟩, hi, ⟨hne, hprecedes⟩, rfl⟩
      have hfirst : moves[i']? = some first := List.mem_zipIdx_iff_getElem?.1 hi
      exact ⟨⟨hne, first, second, hfirst, hsecond, hprecedes⟩, (List.getElem?_eq_some_iff.1 hfirst).1⟩
    · rintro ⟨⟨hne, first, second', hfirst, hsecond', hprecedes⟩, -⟩
      obtain rfl : second = second' := Option.some.inj (hsecond.symm.trans hsecond')
      exact ⟨(first, i), List.mem_zipIdx_iff_getElem?.2 hfirst, ⟨hne, hprecedes⟩, rfl⟩

namespace InWait

variable {ws : List Waiting} (h : InWait moves ws)

include h

theorem nodup : (ws.map (·.index)).Nodup :=
  h.ascending.imp Nat.ne_of_lt

/-- As long as moves wait, one of them waits for none. -/
theorem exists_free (hws : ws ≠ []) : ∃ w ∈ ws, w.before.isEmpty = true := by
  obtain ⟨v, hv⟩ := List.exists_mem_of_ne_nil ws hws
  obtain ⟨i, hi, hfirst⟩ := exists_extremal (r := fun a b => HasToPrecede moves b a)
    (fun a ha => acyclic_hasToPrecede a (Relation.transGen_swap.1 ha))
    ⟨ws.map (·.index), fun a ha => ha⟩ ⟨v.index, List.mem_map_of_mem hv⟩
  obtain ⟨w, hw, rfl⟩ := List.mem_map.1 hi
  refine ⟨w, hw, List.isEmpty_iff.2 (List.eq_nil_iff_forall_not_mem.2 fun j hj => ?_)⟩
  obtain ⟨hprecede, hwaits⟩ := (h.before_iff w hw j).1 hj
  exact hfirst j hwaits hprecede

theorem afterPlacing {w : Waiting} : InWait moves (ConfigUpdate.afterPlacing w ws) := by
  have hindex := map_index_afterPlacing w h.nodup
  constructor
  · rw [hindex]
    exact h.ascending.sublist List.erase_sublist
  · intro v hv i
    obtain ⟨u, hu, rfl⟩ := List.mem_map.1 hv
    have hbefore := h.before_iff u (List.mem_filter.1 hu).1 i
    rw [hindex, h.nodup.mem_erase_iff]
    simp only [List.mem_filter, bne_iff_ne, hbefore]
    tauto

/-- The first move that waits for none has the least position of all those that do. -/
theorem index_le_of_free {v w : Waiting} (hw : ws.find? (·.before.isEmpty) = some w) (hv : v ∈ ws)
    (hfree : v.before.isEmpty = true) : v = w ∨ w.index < v.index := by
  obtain ⟨-, passed, later, rfl, hpassed⟩ := List.find?_eq_some_iff_append.1 hw
  rcases List.mem_append.1 hv with hmem | hmem
  · have hnot := hpassed v hmem
    rw [hfree] at hnot
    cases hnot
  · rcases List.mem_cons.1 hmem with rfl | hmem
    · exact .inl rfl
    · have hascending := h.ascending
      rw [List.map_append, List.map_cons] at hascending
      have htail := (List.pairwise_append.1 hascending).2.1
      exact .inr ((List.pairwise_cons.1 htail).1 _ (List.mem_map_of_mem hmem))

end InWait

/-- The rounds place all moves, so they never fall back on the order as it stands. -/
theorem placedInTurn_place {ws : List Waiting} {fuel : Nat} (h : InWait moves ws) (hfuel : ws.length ≤ fuel) :
    PlacedInTurn ws (place fuel ws) := by
  induction fuel generalizing ws with
  | zero =>
    rw [List.length_eq_zero_iff.1 (Nat.le_zero.1 hfuel)]
    exact .done
  | succ fuel ih =>
    by_cases hws : ws = []
    · subst hws
      exact .done
    · obtain ⟨v, hv, hfree⟩ := h.exists_free hws
      have hsome : (ws.find? (·.before.isEmpty)).isSome := List.find?_isSome.2 ⟨v, hv, hfree⟩
      obtain ⟨w, hw⟩ := Option.isSome_iff_exists.1 hsome
      have hmem : w.index ∈ ws.map (·.index) := List.mem_map_of_mem (List.mem_of_find?_eq_some hw)
      have hlength := congrArg List.length (map_index_afterPlacing w h.nodup)
      rw [List.length_map, List.length_erase_of_mem hmem, List.length_map] at hlength
      rw [place_succ fuel hw]
      exact .next hw (ih h.afterPlacing (by omega))

/-! ## Orders -/

/-- An order of all positions in which none stands before one that has to precede it. -/
def RespectsPrecedence (moves : List Move) (order : List Nat) : Prop :=
  order.Perm (List.range moves.length) ∧ order.Pairwise fun i j => ¬ HasToPrecede moves j i

namespace PlacedInTurn

variable {ws : List Waiting} {order : List Nat} (h : PlacedInTurn ws order) (hws : InWait moves ws)

include h hws

theorem perm : order.Perm (ws.map (·.index)) := by
  induction h with
  | done => exact List.Perm.refl _
  | @next ws w order hw _ ih =>
    have hmem : w.index ∈ ws.map (·.index) := List.mem_map_of_mem (List.mem_of_find?_eq_some hw)
    have hrest := ih hws.afterPlacing
    rw [map_index_afterPlacing w hws.nodup] at hrest
    exact (hrest.cons _).trans (List.perm_cons_erase hmem).symm

/-- A position is placed when none is left that has to precede it. -/
theorem pairwise : order.Pairwise fun i j => ¬ HasToPrecede moves j i := by
  induction h with
  | done => exact .nil
  | @next ws w order hw hrest ih =>
    refine List.pairwise_cons.2 ⟨fun i hi hprecede => ?_, ih hws.afterPlacing⟩
    have hwaits := (hrest.perm hws.afterPlacing).subset hi
    rw [map_index_afterPlacing w hws.nodup] at hwaits
    have hbefore := (hws.before_iff w (List.mem_of_find?_eq_some hw) i).2
      ⟨hprecede, List.mem_of_mem_erase hwaits⟩
    have hfree : w.before.isEmpty = true := by simpa using List.find?_some hw
    rw [List.isEmpty_iff.1 hfree] at hbefore
    cases hbefore

/-- Any other order that respects precedence comes later. -/
theorem least {other : List Nat} (hperm : other.Perm (ws.map (·.index)))
    (hother : other.Pairwise fun i j => ¬ HasToPrecede moves j i) :
    other = order ∨ List.Lex (· < ·) order other := by
  induction h generalizing other with
  | done => exact .inl hperm.eq_nil
  | @next ws w order hw hrest ih =>
    have hmem : w.index ∈ ws.map (·.index) := List.mem_map_of_mem (List.mem_of_find?_eq_some hw)
    cases other with
    | nil =>
      rw [← hperm.nil_eq] at hmem
      cases hmem
    | cons i other =>
      obtain ⟨hfirst, hlater⟩ := List.pairwise_cons.1 hother
      obtain ⟨v, hv, rfl⟩ := List.mem_map.1 (hperm.subset List.mem_cons_self)
      have hfree : v.before.isEmpty = true := by
        refine List.isEmpty_iff.2 (List.eq_nil_iff_forall_not_mem.2 fun j hj => ?_)
        obtain ⟨hprecede, hwaits⟩ := (hws.before_iff v hv j).1 hj
        rcases List.mem_cons.1 (hperm.symm.subset hwaits) with rfl | hj
        · exact hprecede.1 rfl
        · exact hfirst j hj hprecede
      obtain rfl | hlt := hws.index_le_of_free hw hv hfree
      · have hperm' : other.Perm ((afterPlacing v ws).map (·.index)) := by
          rw [map_index_afterPlacing v hws.nodup]
          exact (hperm.trans (List.perm_cons_erase hmem)).cons_inv
        exact (ih hws.afterPlacing hperm' hlater).imp (congrArg (v.index :: ·)) .cons
      · exact .inr (.rel hlt)

end PlacedInTurn

end Loop

/-- Precedence has no cycle, so the rounds place every move. The preferred order respects precedence, and it is
the least order that does. -/
theorem preferenceOrder_least (moves : List Move) :
    (∀ i, ¬ Relation.TransGen (HasToPrecede moves) i i) ∧
      PlacedInTurn (waitingOf moves) (preferenceOrder moves) ∧
      RespectsPrecedence moves (preferenceOrder moves) ∧
      ∀ order, RespectsPrecedence moves order →
        order = preferenceOrder moves ∨ List.Lex (· < ·) (preferenceOrder moves) order := by
  have hstart := inWait_waitingOf moves
  have hlength : (waitingOf moves).length ≤ moves.length := by simp [waitingOf]
  have hplaced : PlacedInTurn (waitingOf moves) (preferenceOrder moves) := placedInTurn_place hstart hlength
  refine ⟨acyclic_hasToPrecede, hplaced, ⟨preferenceOrder_perm moves, hplaced.pairwise hstart⟩, ?_⟩
  rintro order ⟨hperm, hrespects⟩
  refine hplaced.least hstart ?_ hrespects
  rwa [map_index_waitingOf]

/-- The removals of an interface and of its address, and the addition of another address of it, given in an
order in which none precedes what it has to. -/
def readdress : List Move := [
  .remove (.ofNames ["INTERFACE", "Ethernet0"]) .empty,
  .remove (.ofNames ["INTERFACE", "Ethernet0|10.0.0.0/31"]) .empty,
  .add (.ofNames ["INTERFACE", "Ethernet0|10.0.0.2/31"]) .empty]

theorem preferenceOrder_readdress : preferenceOrder readdress = [2, 1, 0] := by
  decide

/-- The keys of the two addresses differ, but have the same base. -/
theorem preferenceOrder_least_readdress :
    HasToPrecede readdress 2 1 ∧ PlacedInTurn (waitingOf readdress) [2, 1, 0] ∧
      RespectsPrecedence readdress [2, 1, 0] ∧
      ∀ order, RespectsPrecedence readdress order → order = [2, 1, 0] ∨ List.Lex (· < ·) [2, 1, 0] order := by
  have hedge : HasToPrecede readdress 2 1 := (hasToPrecede_of_add_iff rfl rfl rfl rfl).2
    ⟨"INTERFACE", "Ethernet0|10.0.0.2/31", "Ethernet0|10.0.0.0/31", rfl, rfl, rfl, rfl, by decide⟩
  have hleast := (preferenceOrder_least readdress).2
  rw [preferenceOrder_readdress] at hleast
  exact ⟨hedge, hleast⟩

end ConfigUpdate
