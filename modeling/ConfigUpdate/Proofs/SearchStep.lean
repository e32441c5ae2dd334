import ConfigUpdate.Plan.Search
import ConfigUpdate.Proofs.MoveRun
import Std.Data.HashSet.Lemmas

/-!
# What one candidate does to a search

A candidate either leads to a next state (`Problem.next?`) or it does not, and in both cases it leaves behind
notes for the error (`Problem.noted`). The equation `tryEach_cons` says this once. How the search goes on from
there is told by `tryEach_outcomes`, so that results about whole searches need not look into `tryEach` again.
-/

namespace ConfigUpdate

namespace Memory

@[simp] theorem visited_hold (mem : Memory) (i : Nat) : (mem.hold i).visited = mem.visited := by
  unfold hold
  split <;> rfl

@[simp] theorem explored_hold (mem : Memory) (i : Nat) : (mem.hold i).explored = mem.explored := by
  unfold hold
  split <;> rfl

@[simp] theorem faults_hold (mem : Memory) (i : Nat) : (mem.hold i).faults = mem.faults := by
  unfold hold
  split <;> rfl

@[simp] theorem rejection_hold (mem : Memory) (i : Nat) : (mem.hold i).rejection = mem.rejection := by
  unfold hold
  split <;> rfl

@[simp] theorem mem_held_hold {mem : Memory} {i j : Nat} :
    j ∈ (mem.hold i).held ↔ j = i ∨ j ∈ mem.held := by
  unfold hold
  split
  · rename_i h
    have hi : i ∈ mem.held := by simpa using h
    exact ⟨.inr, fun hj => hj.elim (fun heq => heq ▸ hi) id⟩
  · exact List.mem_cons

theorem contains_enter {mem : Memory} {print print' : UInt64} :
    (mem.enter print).visited.contains print' = true ↔
      print = print' ∨ mem.visited.contains print' = true := by
  simp [enter]

theorem contains_start {print print' : UInt64} :
    (start print).visited.contains print' = true ↔ print = print' := by
  simp [start]

theorem get?_faults_fail (mem : Memory) (i j : Nat) (e : PreconditionError) :
    (mem.fail i e).faults.get? j = if i = j then some e else mem.faults.get? j :=
  Dictionary.get?_insert _ _ _ _

/-- Two memories that know the same states and have counted the same number of them. -/
def SameStates (mem mem' : Memory) : Prop :=
  mem.visited = mem'.visited ∧ mem.explored = mem'.explored

end Memory

namespace Problem

variable (p : Problem)

/-- The state after the move at a position, if the move finds what it expects and the oracle accepts
the tree after it. -/
def next? (s : SearchState) (i : Nat) : Option SearchState :=
  match p.moves[i]? with
  | none => none
  | some m =>
    match m.step s.tree with
    | .error _ => none
    | .ok tree =>
      match p.oracle tree with
      | .error _ => none
      | .ok () => some ⟨tree, s.remaining.erase i⟩

/-- The states that a search from a tree can get to. -/
inductive Reachable (current : Value) : SearchState → Prop
  | start : Reachable current ⟨current, preferenceOrder p.moves⟩
  | step {s next : SearchState} {i : Nat} :
    Reachable current s → i ∈ s.remaining → p.next? s i = some next → Reachable current next

/-- Two states that a search can get to have the same fingerprint only if they are equal. -/
def CollisionFree (current : Value) : Prop :=
  ∀ s s', p.Reachable current s → p.Reachable current s' → p.fingerprint s = p.fingerprint s' →
    s.tree.same s'.tree = true ∧ s.remaining = s'.remaining

/-- The memory after a look at the candidate at a position: that it finds what it expects, or what speaks
against it. -/
def noted (s : SearchState) (i : Nat) (mem : Memory) : Memory :=
  match p.moves[i]? with
  | none => mem
  | some m =>
    match m.check s.tree with
    | .error e => mem.fail i e
    | .ok () =>
      match m.run s.tree with
      | .error e => (mem.hold i).fail i (.unresolvable e)
      | .ok tree =>
        match p.oracle tree with
        | .error r => (mem.hold i).reject r
        | .ok () => mem.hold i

/-- What a search does after it has entered a state. -/
def afterEnter (below : SearchState → Memory → Verdict × Memory) (s next : SearchState) (i : Nat)
    (is : List Nat) (mem : Memory) : Verdict × Memory :=
  if p.budget < mem.explored then (.outOfBudget, mem)
  else
    match below next mem with
    | (.found order, mem) => (.found (i :: order), mem)
    | (.deadEnd, mem) => p.tryEach below s is mem
    | (.outOfBudget, mem) => (.outOfBudget, mem)

variable {p} {s next : SearchState} {i : Nat}

theorem next?_eq_some_iff :
    p.next? s i = some next ↔
      ∃ m after, p.moves[i]? = some m ∧ m.check s.tree = .ok () ∧ m.run s.tree = .ok after ∧
        p.oracle after = .ok () ∧ next = ⟨after, s.remaining.erase i⟩ := by
  unfold next?
  cases hm : p.moves[i]? with
  | none => simp
  | some m =>
    cases hs : m.step s.tree with
    | error e =>
      refine ⟨fun h => by simp [hs] at h, ?_⟩
      rintro ⟨m', after, hm', hc, hr, -⟩
      cases hm'
      rw [Move.step_eq_ok_iff.2 ⟨hc, hr⟩] at hs
      cases hs
    | ok after =>
      obtain ⟨hc, hr⟩ := Move.step_eq_ok_iff.1 hs
      cases ho : p.oracle after with
      | error r => simp [hs, hc, hr, ho]
      | ok u => simp [hs, hc, hr, ho, eq_comm]

/-- The moves that are left are some of all moves, in the preferred order. -/
theorem Reachable.sublist {current : Value} (h : p.Reachable current s) :
    s.remaining.Sublist (preferenceOrder p.moves) := by
  induction h with
  | start => exact List.Sublist.refl _
  | step _ _ hnext ih =>
    obtain ⟨m, after, -, -, -, -, rfl⟩ := next?_eq_some_iff.1 hnext
    exact List.erase_sublist.trans ih

theorem Reachable.accepted {current : Value} (hstart : p.oracle current = .ok ())
    (h : p.Reachable current s) : p.oracle s.tree = .ok () := by
  cases h with
  | start => exact hstart
  | step _ _ hnext =>
    obtain ⟨m, after, -, -, -, haccepted, rfl⟩ := next?_eq_some_iff.1 hnext
    exact haccepted

theorem length_remaining_of_next {n : Nat} (hi : i ∈ s.remaining) (hn : s.remaining.length = n + 1)
    (h : p.next? s i = some next) : next.remaining.length = n := by
  obtain ⟨m, after, -, -, -, -, rfl⟩ := next?_eq_some_iff.1 h
  rw [List.length_erase_of_mem hi, hn]
  rfl

/-- How a candidate can turn out, and what is noted in each case. -/
theorem candidate_cases (p : Problem) (s : SearchState) (i : Nat) (mem : Memory) :
    (p.moves[i]? = none ∧ p.next? s i = none ∧ p.noted s i mem = mem) ∨
      ∃ m, p.moves[i]? = some m ∧
        ((∃ e, m.check s.tree = .error e ∧ p.next? s i = none ∧ p.noted s i mem = mem.fail i e) ∨
          (m.check s.tree = .ok () ∧
            ((∃ e, m.run s.tree = .error e ∧ p.next? s i = none ∧
                p.noted s i mem = (mem.hold i).fail i (.unresolvable e)) ∨
              ∃ after, m.run s.tree = .ok after ∧
                ((∃ r, p.oracle after = .error r ∧ p.next? s i = none ∧
                    p.noted s i mem = (mem.hold i).reject r) ∨
                  (p.oracle after = .ok () ∧ p.next? s i = some ⟨after, s.remaining.erase i⟩ ∧
                    p.noted s i mem = mem.hold i))))) := by
  cases hm : p.moves[i]? with
  | none => exact .inl ⟨rfl, by simp [next?, hm], by simp [noted, hm]⟩
  | some m =>
    refine .inr ⟨m, rfl, ?_⟩
    cases hc : m.check s.tree with
    | error e => exact .inl ⟨e, rfl, by simp [next?, hm, Move.step_of_check_error hc], by simp [noted, hm, hc]⟩
    | ok u =>
      refine .inr ⟨rfl, ?_⟩
      cases hr : m.run s.tree with
      | error e =>
        exact .inl ⟨e, rfl, by simp [next?, hm, Move.step_of_run_error hc hr], by simp [noted, hm, hc, hr]⟩
      | ok after =>
        refine .inr ⟨after, rfl, ?_⟩
        have hs := Move.step_eq_ok_iff.2 ⟨hc, hr⟩
        cases ho : p.oracle after with
        | error r => exact .inl ⟨r, rfl, by simp [next?, hm, hs, ho], by simp [noted, hm, hc, hr, ho]⟩
        | ok u => exact .inr ⟨rfl, by simp [next?, hm, hs, ho], by simp [noted, hm, hc, hr, ho]⟩

/-- A look at a candidate leaves the states as they are. -/
theorem sameStates_noted (s : SearchState) (i : Nat) (mem : Memory) :
    Memory.SameStates (p.noted s i mem) mem := by
  have hhold : Memory.SameStates (mem.hold i) mem := ⟨mem.visited_hold i, mem.explored_hold i⟩
  obtain ⟨-, -, hnoted⟩ | ⟨m, -, ⟨e, -, -, hnoted⟩ | ⟨-, ⟨e, -, -, hnoted⟩ |
    ⟨after, -, ⟨r, -, -, hnoted⟩ | ⟨-, -, hnoted⟩⟩⟩⟩ := p.candidate_cases s i mem <;> rw [hnoted]
  · exact ⟨rfl, rfl⟩
  · exact ⟨rfl, rfl⟩
  · exact hhold
  · exact hhold
  · exact hhold

/-- What becomes of the first of some candidates. -/
theorem tryEach_cons (p : Problem) (below : SearchState → Memory → Verdict × Memory) (s : SearchState)
    (i : Nat) (is : List Nat) (mem : Memory) :
    p.tryEach below s (i :: is) mem =
      match p.next? s i with
      | none => p.tryEach below s is (p.noted s i mem)
      | some next =>
        if (p.noted s i mem).visited.contains (p.fingerprint next) then
          p.tryEach below s is (p.noted s i mem)
        else p.afterEnter below s next i is ((p.noted s i mem).enter (p.fingerprint next)) := by
  obtain ⟨hm, hnext, hnoted⟩ | ⟨m, hm, ⟨e, hc, hnext, hnoted⟩ | ⟨hc, ⟨e, hr, hnext, hnoted⟩ |
    ⟨after, hr, ⟨r, ho, hnext, hnoted⟩ | ⟨ho, hnext, hnoted⟩⟩⟩⟩ := p.candidate_cases s i mem <;>
    rw [hnext, hnoted]
  · simp only [tryEach, hm]
  · simp only [tryEach, hm, hc]
  · simp only [tryEach, hm, hc, hr]
  · simp only [tryEach, hm, hc, hr, ho]
  · simp only [tryEach, hm, hc, hr, ho]
    rfl

/-- A candidate that leads nowhere, or to a state that is known, is passed over. -/
theorem tryEach_pass (below : SearchState → Memory → Verdict × Memory) (is : List Nat) {mem : Memory}
    (hknown : ∀ next, p.next? s i = some next →
      (p.noted s i mem).visited.contains (p.fingerprint next) = true) :
    p.tryEach below s (i :: is) mem = p.tryEach below s is (p.noted s i mem) := by
  rw [tryEach_cons]
  cases hnext : p.next? s i with
  | none => rfl
  | some next => exact if_pos (hknown next hnext)

/-- A new state behind a candidate is entered. -/
theorem tryEach_enter (below : SearchState → Memory → Verdict × Memory) (is : List Nat) {mem : Memory}
    (hnext : p.next? s i = some next)
    (hnew : (p.noted s i mem).visited.contains (p.fingerprint next) = false) :
    p.tryEach below s (i :: is) mem =
      p.afterEnter below s next i is ((p.noted s i mem).enter (p.fingerprint next)) := by
  rw [tryEach_cons, hnext]
  exact if_neg (Bool.eq_false_iff.1 hnew)

/-- How a search goes on with the first of some candidates: it passes it over, or it enters the state behind it.
Then it is cut off, there or below; or an order is found below; or it comes back and tries the others. -/
theorem tryEach_outcomes (p : Problem) (below : SearchState → Memory → Verdict × Memory) (s : SearchState)
    (i : Nat) (is : List Nat) (mem : Memory) :
    (p.tryEach below s (i :: is) mem = p.tryEach below s is (p.noted s i mem) ∧
        ∀ next, p.next? s i = some next →
          (p.noted s i mem).visited.contains (p.fingerprint next) = true) ∨
      ∃ next entered, p.next? s i = some next ∧
        (p.noted s i mem).visited.contains (p.fingerprint next) = false ∧
        entered = (p.noted s i mem).enter (p.fingerprint next) ∧
        ((p.budget < entered.explored ∧ p.tryEach below s (i :: is) mem = (.outOfBudget, entered)) ∨
          (entered.explored ≤ p.budget ∧
            ((∃ order mem', below next entered = (.found order, mem') ∧
                p.tryEach below s (i :: is) mem = (.found (i :: order), mem')) ∨
              (∃ mem', below next entered = (.deadEnd, mem') ∧
                p.tryEach below s (i :: is) mem = p.tryEach below s is mem') ∨
              ∃ mem', below next entered = (.outOfBudget, mem') ∧
                p.tryEach below s (i :: is) mem = (.outOfBudget, mem')))) := by
  by_cases hknown : ∀ next, p.next? s i = some next →
      (p.noted s i mem).visited.contains (p.fingerprint next) = true
  · exact .inl ⟨tryEach_pass below is hknown, hknown⟩
  · obtain ⟨next, hnot⟩ := Classical.not_forall.1 hknown
    obtain ⟨hnext, hnot⟩ := Classical.not_imp.1 hnot
    have hnew := Bool.eq_false_iff.2 hnot
    have heq := tryEach_enter below is hnext hnew
    refine .inr ⟨next, _, hnext, hnew, rfl, ?_⟩
    unfold afterEnter at heq
    by_cases hover : p.budget < ((p.noted s i mem).enter (p.fingerprint next)).explored
    · rw [if_pos hover] at heq
      exact .inl ⟨hover, heq⟩
    · rw [if_neg hover] at heq
      refine .inr ⟨Nat.le_of_not_lt hover, ?_⟩
      rcases hresult : below next ((p.noted s i mem).enter (p.fingerprint next)) with ⟨verdict, mem'⟩
      rw [hresult] at heq
      cases verdict with
      | found order => exact .inl ⟨order, mem', rfl, heq⟩
      | deadEnd => exact .inr (.inl ⟨mem', rfl, heq⟩)
      | outOfBudget => exact .inr (.inr ⟨mem', rfl, heq⟩)

/-- What becomes of a search. Without moves it finds the empty order. -/
theorem sort_eq (p : Problem) (current : Value) : p.sort current =
    match p.search current with
    | (.found order, _) => .ok (order.filterMap (p.moves[·]?))
    | (.deadEnd, mem) => .error (p.failure mem)
    | (.outOfBudget, mem) =>
      .error (.structural ("node budget of " ++ toString p.budget ++ " exhausted") mem.explored) := by
  unfold sort
  split
  · rename_i hempty
    simp [search, List.isEmpty_iff.1 hempty, searchFrom]
  · rfl

theorem sort_of_deadEnd {current : Value} (h : (p.search current).1 = .deadEnd) :
    p.sort current = .error (p.failure (p.search current).2) := by
  rw [sort_eq]
  generalize p.search current = result at h ⊢
  obtain ⟨verdict, mem⟩ := result
  obtain rfl : verdict = .deadEnd := h
  rfl

end Problem

end ConfigUpdate
