import ConfigUpdate.Proofs.SlicedApply
import ConfigUpdate.Proofs.StoreMoves
import ConfigUpdate.Store.Faulty

/-!
# Faults and a second writer

A plan made in a store that another writer changes, and that may refuse a write, is one linear history: the
moves made so far, and the change of the other writer right after the move that it follows. `sharedRun` is
that history in the whole tree, and `apply_faulty_interleaves` says that the store follows it up to where the
plan ends. So nothing that the other writer did is lost, and a move that is not made leaves no trace.
-/

namespace ConfigUpdate

/-- The tree after what the other writer does when a number of moves has been made. -/
def interfere (drift : Option (Nat × Change)) (made : Nat) (tree : Value) : Value :=
  match drift with
  | some (n, change) => if n = made then change.applyTo tree else tree
  | none => tree

/-- Moves made one after another in a whole tree that another writer changes in between, when a number of
moves has been made already: the position of the first one that fails, if one does, and the last tree. -/
def sharedRun (drift : Option (Nat × Change)) (made : Nat) (tree : Value) :
    List Move → Option Nat × Value
  | [] => (none, tree)
  | m :: ms =>
    match m.step (m.ground tree) with
    | .error _ => (some 0, tree)
    | .ok after =>
      let rest := sharedRun drift (made + 1) (interfere drift (made + 1) after) ms
      (rest.1.map (· + 1), rest.2)

/-- Along the run in the shared tree the paths of the moves lead below tables or missing ones only. -/
def FitsShared (drift : Option (Nat × Change)) (made : Nat) (tree : Value) : List Move → Prop
  | [] => True
  | m :: ms =>
    m.MeetsTable tree ∧ ∀ after, m.step (m.ground tree) = .ok after →
      FitsShared drift (made + 1) (interfere drift (made + 1) after) ms

/-- How a plan ends, and after how many moves, if its first move has the position `index`, the run in the
shared tree stops at a position or at none, and one write may be refused. -/
inductive EndsShared (failAt stop : Option Nat) (index : Nat) (moves : List Move) :
    Nat → Except UpdateError Unit → Prop
  | done : stop = none → (∀ n, failAt = some n → index + moves.length ≤ n) →
    EndsShared failAt stop index moves moves.length (.ok ())
  | conflict {i : Nat} {m : Move} {reason : String} : stop = some i →
    (∀ n, failAt = some n → index + i ≤ n) → moves[i]? = some m →
    EndsShared failAt stop index moves i
      (.error (.concurrentModification (index + i) m.path.text (index + i) reason))
  | refused {k : Nat} {m : Move} : failAt = some (index + k) → (∀ i, stop = some i → k < i) →
    moves[k]? = some m →
    EndsShared failAt stop index moves k
      (.error (.applyFailed (index + k) m.path.text (index + k) .injected))

/-! ## One move -/

namespace FaultyContent

variable {c : FaultyContent}

/-- A write changes the tables and is counted, whatever the other writer does. -/
theorem exists_accept_eq (c : FaultyContent) (w : Write) :
    ∃ ts, c.accept w = { c with tables := ts, writes := c.writes + 1 } := by
  obtain ⟨tables, writes, failAt, drift, dropsEmpty⟩ := c
  unfold accept settle driftOn
  cases dropsEmpty <;> cases drift <;> simp <;> split <;> simp

@[simp] theorem accept_writes (w : Write) : (c.accept w).writes = c.writes + 1 := by
  obtain ⟨ts, h⟩ := c.exists_accept_eq w
  rw [h]

@[simp] theorem accept_failAt (w : Write) : (c.accept w).failAt = c.failAt := by
  obtain ⟨ts, h⟩ := c.exists_accept_eq w
  rw [h]

@[simp] theorem accept_drift (w : Write) : (c.accept w).drift = c.drift := by
  obtain ⟨ts, h⟩ := c.exists_accept_eq w
  rw [h]

@[simp] theorem accept_dropsEmpty (w : Write) : (c.accept w).dropsEmpty = c.dropsEmpty := by
  obtain ⟨ts, h⟩ := c.exists_accept_eq w
  rw [h]

/-- After a write the other writer makes the change that is due. -/
theorem accept_tree (hkeeps : c.dropsEmpty = false) (w : Write) :
    (c.accept w).tables.toTree = interfere c.drift (c.writes + 1) (.object (w.run c.tables)) := by
  obtain ⟨tables, writes, failAt, drift, dropsEmpty⟩ := c
  obtain rfl : dropsEmpty = false := hkeeps
  unfold accept settle driftOn interfere
  cases drift with
  | none => rfl
  | some due =>
    by_cases h : due.1 = writes + 1
    · simp [h, Change.applyTo, Tables.toTree, Tables.ofTree, Value.members?]
    · simp [h, Tables.toTree]

end FaultyContent

/-- A move in a faulty store fails where it fails in the whole tree. Otherwise the write is refused, and
nothing changes, or the store is left as the move and then the other writer leave the tree. -/
theorem makeMove_faulty {m : Move} {c : FaultyContent} (hpath : m.path ≠ [])
    (hkeeps : c.dropsEmpty = false) (hmeets : m.MeetsTable c.tables.toTree) :
    (∃ e cause, m.step (m.ground c.tables.toTree) = .error e ∧
        Store.faulty.makeMove m c = (.error (.drift cause), c)) ∨
      ∃ after, m.step (m.ground c.tables.toTree) = .ok after ∧
        ((c.failAt = some c.writes ∧ Store.faulty.makeMove m c = (.error (.store .injected), c)) ∨
          (c.failAt ≠ some c.writes ∧ ∃ w, Store.faulty.makeMove m c = (.ok (), c.accept w) ∧
            (c.accept w).tables.toTree = interfere c.drift (c.writes + 1) after)) := by
  obtain ⟨s, p, hp⟩ := List.exists_cons_of_ne_nil hpath
  obtain hfault | ⟨w, hstep, hmove⟩ := Store.faulty.makeMove_tables hp rfl hmeets
  · exact .inl hfault
  · refine .inr ⟨_, hstep, ?_⟩
    rw [hmove]
    by_cases hfail : c.failAt = some c.writes
    · exact .inl ⟨hfail, by simp [Store.faulty, hfail, Store.ofWrite]⟩
    · exact .inr ⟨hfail, w, by simp [Store.faulty, hfail, Store.ofWrite],
        FaultyContent.accept_tree hkeeps w⟩

/-! ## A plan -/

theorem EndsShared.cons {failAt stop : Option Nat} {index committed : Nat} {moves : List Move}
    {result : Except UpdateError Unit} (m : Move)
    (h : EndsShared failAt stop (index + 1) moves committed result) :
    EndsShared failAt (stop.map (· + 1)) index (m :: moves) (committed + 1) result := by
  have hindex : index + 1 + committed = index + (committed + 1) := by omega
  cases h with
  | done hstop hfail =>
    refine .done (by rw [hstop]; rfl) fun n hn => ?_
    rw [List.length_cons, ← hindex]
    exact hfail n hn
  | conflict hstop hfail hm =>
    rw [hindex] at hfail ⊢
    exact .conflict (by rw [hstop]; rfl) hfail hm
  | refused hfail hstop hm =>
    rw [hindex] at hfail ⊢
    refine .refused hfail (fun i hi => ?_) hm
    obtain ⟨j, hj, rfl⟩ := Option.map_eq_some_iff.1 hi
    exact Nat.succ_lt_succ (hstop j hj)

/-- The moves of a plan end in a faulty store as the run in the shared tree and the refused write say, and
leave the tree of the moves that were made. -/
theorem makeMoves_faulty {moves : List Move} {c : FaultyContent} (hkeeps : c.dropsEmpty = false)
    (hahead : ∀ n, c.failAt = some n → c.writes ≤ n) (hpaths : ∀ m ∈ moves, m.path ≠ [])
    (hfits : FitsShared c.drift c.writes c.tables.toTree moves) :
    ∃ committed, EndsShared c.failAt (sharedRun c.drift c.writes c.tables.toTree moves).1 c.writes moves
        committed (Store.faulty.makeMoves c.writes moves c).1 ∧
      (Store.faulty.makeMoves c.writes moves c).2.tables.toTree
        = (sharedRun c.drift c.writes c.tables.toTree (moves.take committed)).2 := by
  induction moves generalizing c with
  | nil => exact ⟨0, .done rfl hahead, rfl⟩
  | cons m ms ih =>
    obtain ⟨hmeets, hrest⟩ := hfits
    obtain ⟨e, cause, hstep, hmove⟩ | ⟨after, hstep, ⟨hfail, hmove⟩ | ⟨hfail, w, hmove, htree⟩⟩ :=
      makeMove_faulty (hpaths m List.mem_cons_self) hkeeps hmeets
    · -- The move finds something else, whether or not its write would be refused.
      simp only [sharedRun, hstep, Store.makeMoves, hmove]
      exact ⟨0, .conflict rfl hahead rfl, rfl⟩
    · simp only [sharedRun, hstep, Store.makeMoves, hmove]
      refine ⟨0, .refused hfail (fun i hi => ?_) rfl, rfl⟩
      obtain ⟨j, -, rfl⟩ := Option.map_eq_some_iff.1 hi
      exact Nat.succ_pos j
    · have hahead' : ∀ n, (c.accept w).failAt = some n → (c.accept w).writes ≤ n := by
        intro n hn
        rw [FaultyContent.accept_failAt] at hn
        rw [FaultyContent.accept_writes]
        refine Nat.lt_of_le_of_ne (hahead n hn) ?_
        rintro rfl
        exact hfail hn
      have hfits' := hrest after hstep
      obtain ⟨committed, hend, hlast⟩ := ih (c := c.accept w) (by simpa using hkeeps) hahead'
        (fun m' hm' => hpaths m' (List.mem_cons_of_mem m hm')) (by simpa [htree] using hfits')
      rw [FaultyContent.accept_writes, FaultyContent.accept_drift, htree] at hend hlast
      refine ⟨committed + 1, ?_, ?_⟩
      · simp only [sharedRun, hstep, Store.makeMoves, hmove]
        rw [FaultyContent.accept_failAt] at hend
        exact hend.cons m
      · simp only [sharedRun, hstep, Store.makeMoves, hmove, List.take_succ_cons]
        exact hlast

/-- The moves of a plan made in a fresh store that another writer changes and that may refuse a write stop
with the first one that fails in the shared tree, unless a write is refused before; they stop with the
refused write if the run in the shared tree gets there; otherwise all are made. In each case the content is
the shared tree after the moves that were made. -/
theorem apply_faulty_interleaves (c : FaultyContent) (moves : List Move) (hfresh : c.writes = 0)
    (hkeeps : c.dropsEmpty = false) (hpaths : ∀ m ∈ moves, m.path ≠ [])
    (hfits : FitsShared c.drift 0 c.tables.toTree moves) :
    (∀ i, (sharedRun c.drift 0 c.tables.toTree moves).1 = some i →
        (∀ n, c.failAt = some n → i ≤ n) →
        (∃ m reason, moves[i]? = some m ∧ (Store.faulty.apply moves c).1
          = .error (.concurrentModification i m.path.text i reason)) ∧
        (Store.faulty.apply moves c).2.tables.toTree
          = (sharedRun c.drift 0 c.tables.toTree (moves.take i)).2) ∧
      (∀ n, c.failAt = some n → n < moves.length →
        (∀ i, (sharedRun c.drift 0 c.tables.toTree moves).1 = some i → n < i) →
        (∃ m, moves[n]? = some m ∧ (Store.faulty.apply moves c).1
          = .error (.applyFailed n m.path.text n .injected)) ∧
        (Store.faulty.apply moves c).2.tables.toTree
          = (sharedRun c.drift 0 c.tables.toTree (moves.take n)).2) ∧
      ((sharedRun c.drift 0 c.tables.toTree moves).1 = none →
        (∀ n, c.failAt = some n → moves.length ≤ n) →
        (Store.faulty.apply moves c).1 = .ok ⟨moves.length, moves.length⟩ ∧
        (Store.faulty.apply moves c).2.tables.toTree
          = (sharedRun c.drift 0 c.tables.toTree moves).2) := by
  obtain ⟨committed, hend, hlast⟩ := makeMoves_faulty hkeeps
    (by simp [hfresh]) hpaths (by rwa [hfresh])
  rw [hfresh] at hend hlast
  simp only [Store.apply]
  generalize Store.faulty.makeMoves 0 moves c = outcome at hend hlast
  obtain ⟨result, c'⟩ := outcome
  generalize (sharedRun c.drift 0 c.tables.toTree moves).1 = stop at hend
  cases hend with
  | done hstop hfail =>
    refine ⟨?_, ?_, ?_⟩
    · intro i hi
      simp [hstop] at hi
    · intro n hn hlt
      have := hfail n hn
      omega
    · intro _ _
      exact ⟨rfl, by simpa using hlast⟩
  | conflict hstop hfail hm =>
    simp only [Nat.zero_add] at hfail hm ⊢
    refine ⟨?_, ?_, ?_⟩
    · intro i hi _
      obtain rfl : committed = i := Option.some.inj (hstop.symm.trans hi)
      exact ⟨⟨_, _, hm, rfl⟩, hlast⟩
    · intro n hn _ hreach
      exact absurd (hreach _ hstop) (Nat.not_lt.2 (hfail n hn))
    · intro hnone
      rw [hstop] at hnone
      cases hnone
  | refused hfail hstop hm =>
    simp only [Nat.zero_add] at hfail hm ⊢
    refine ⟨?_, ?_, ?_⟩
    · intro i hi hbefore
      exact absurd (hstop i hi) (Nat.not_lt.2 (hbefore _ hfail))
    · intro n hn _ _
      obtain rfl : committed = n := Option.some.inj (hfail.symm.trans hn)
      exact ⟨⟨_, hm, rfl⟩, hlast⟩
    · intro _ hlate
      have hlt := (List.getElem?_eq_some_iff.1 hm).1
      exact absurd hlt (Nat.not_lt.2 (hlate _ hfail))

/-! ## A plan that another writer comes into -/

/-- A store with a VLAN, to which another writer adds a member after the first write, and which refuses the
third write. -/
def sharedStore : FaultyContent where
  tables := oneVlan
  failAt := some 2
  drift := some (1, .set "VLAN_MEMBER" "Vlan10|Ethernet4" [])

/-- A plan that adds a member and a VLAN and removes another VLAN, which is not there. -/
def sharedPlan : List Move := [
  .add (.ofNames ["VLAN_MEMBER", "Vlan10|Ethernet0"]) .empty,
  .add (.ofNames ["VLAN", "Vlan30"]) .empty,
  .remove (.ofNames ["VLAN", "Vlan20"]) .empty]

/-- The tree after the first two moves, with what the other writer did. -/
def sharedTree : Value := .object [
  ("VLAN", .object [("Vlan10", .empty), ("Vlan30", .empty)]),
  ("VLAN_MEMBER", .object [("Vlan10|Ethernet0", .empty), ("Vlan10|Ethernet4", .empty)])]

theorem sharedRun_sharedPlan :
    sharedRun sharedStore.drift 0 sharedStore.tables.toTree sharedPlan = (some 2, sharedTree) := rfl

theorem sharedRun_take_sharedPlan :
    (sharedRun sharedStore.drift 0 sharedStore.tables.toTree (sharedPlan.take 2)).2 = sharedTree := rfl

theorem fitsShared_sharedPlan :
    FitsShared sharedStore.drift 0 sharedStore.tables.toTree sharedPlan := by
  refine ⟨?_, fun after hafter => ?_⟩
  · rintro t k p hp table htable
    cases hp
    cases htable
  · cases hafter
    refine ⟨?_, fun after hafter => ?_⟩
    · rintro t k p hp table htable
      cases hp
      cases htable
      rfl
    · cases hafter
      refine ⟨?_, fun after hafter => ?_⟩
      · rintro t k p hp table htable
        cases hp
        cases htable
        rfl
      · cases hafter

/-- The last move fails in the tree before its write could be refused. -/
theorem apply_sharedPlan :
    sharedStore.writes = 0 ∧ sharedStore.dropsEmpty = false ∧ (∀ m ∈ sharedPlan, m.path ≠ []) ∧
      FitsShared sharedStore.drift 0 sharedStore.tables.toTree sharedPlan ∧
      (∃ m reason, sharedPlan[2]? = some m ∧ (Store.faulty.apply sharedPlan sharedStore).1
        = .error (.concurrentModification 2 m.path.text 2 reason)) ∧
      (Store.faulty.apply sharedPlan sharedStore).2.tables.toTree = sharedTree := by
  have hpaths : ∀ m ∈ sharedPlan, m.path ≠ [] := by decide
  have hends := (apply_faulty_interleaves sharedStore sharedPlan rfl rfl hpaths
    fitsShared_sharedPlan).1 2 (by rw [sharedRun_sharedPlan]) (by decide)
  rw [sharedRun_take_sharedPlan] at hends
  exact ⟨rfl, rfl, hpaths, fitsShared_sharedPlan, hends⟩

end ConfigUpdate
