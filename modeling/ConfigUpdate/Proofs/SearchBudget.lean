import ConfigUpdate.Proofs.SearchSoundness

/-!
# The budget only cuts a search off

Two searches that differ in their budgets go the same way until the smaller budget is exceeded, so a search
that is not cut off gives the same result under every larger budget. One that is cut off has entered one state
more than its budget allows, and no other failure reads like that: `Problem.sort_withBudget`.
-/

namespace ConfigUpdate

namespace Problem

variable {p : Problem} {larger : Nat}

/-- The problem with another budget. -/
def withBudget (p : Problem) (budget : Nat) : Problem :=
  { p with budget }

/-- The error of a search that is cut off. -/
def overBudget (p : Problem) : UpdateError :=
  .structural ("node budget of " ++ toString p.budget ++ " exhausted") (p.budget + 1)

/-! ## Searches with two budgets -/

section LargerBudget

variable (hle : p.budget ≤ larger)

include hle

/-- Candidates are tried in the same way, if the searches below them agree where they are not cut off. -/
theorem tryEach_withBudget {below below' : SearchState → Memory → Verdict × Memory}
    (hbelow : ∀ next mem, (below next mem).1 ≠ .outOfBudget → below' next mem = below next mem)
    {s : SearchState} {is : List Nat} {mem : Memory} (h : (p.tryEach below s is mem).1 ≠ .outOfBudget) :
    (p.withBudget larger).tryEach below' s is mem = p.tryEach below s is mem := by
  induction is generalizing mem with
  | nil => rfl
  | cons i is ih =>
    obtain ⟨heq, hknown⟩ | ⟨next, entered, hnext, hnew, rfl, hentered⟩ := p.tryEach_outcomes below s i is mem
    · rw [heq] at h ⊢
      exact (tryEach_pass (p := p.withBudget larger) below' is hknown).trans (ih h)
    · have hlarger : (p.withBudget larger).tryEach below' s (i :: is) mem =
          (p.withBudget larger).afterEnter below' s next i is
            ((p.noted s i mem).enter (p.fingerprint next)) := tryEach_enter below' is hnext hnew
      obtain ⟨-, heq⟩ | ⟨hwithin, hresult⟩ := hentered
      · rw [heq] at h
        exact absurd rfl h
      · have hfits : ¬ (p.withBudget larger).budget <
            ((p.noted s i mem).enter (p.fingerprint next)).explored :=
          Nat.not_lt.2 (Nat.le_trans hwithin hle)
        rw [hlarger, afterEnter, if_neg hfits]
        -- The search below is not cut off, since otherwise the whole search would be.
        obtain ⟨order, mem', hresult, heq⟩ | ⟨mem', hresult, heq⟩ | ⟨mem', hresult, heq⟩ := hresult <;>
          rw [heq] at h ⊢
        · rw [hbelow next _ (by simp [hresult]), hresult]
        · rw [hbelow next _ (by simp [hresult]), hresult]
          exact ih h
        · exact absurd rfl h

theorem searchFrom_withBudget {n : Nat} {s : SearchState} {mem : Memory}
    (h : (p.searchFrom n s mem).1 ≠ .outOfBudget) :
    (p.withBudget larger).searchFrom n s mem = p.searchFrom n s mem := by
  induction n generalizing s mem with
  | zero => rfl
  | succ n ih => exact tryEach_withBudget hle (fun next mem hresult => ih hresult) h

end LargerBudget

/-! ## How many states are entered -/

/-- A search that is cut off has entered one state too many, and any other one no more than it may. -/
def WithinBudget (p : Problem) (result : Verdict × Memory) : Prop :=
  if result.1 = .outOfBudget then result.2.explored = p.budget + 1 else result.2.explored ≤ p.budget

theorem withinBudget_tryEach {below : SearchState → Memory → Verdict × Memory}
    (hbelow : ∀ next mem, mem.explored ≤ p.budget → p.WithinBudget (below next mem)) {s : SearchState}
    {is : List Nat} {mem : Memory} (h : mem.explored ≤ p.budget) :
    p.WithinBudget (p.tryEach below s is mem) := by
  induction is generalizing mem with
  | nil => simpa [WithinBudget, tryEach] using h
  | cons i is ih =>
    have hnoted : (p.noted s i mem).explored ≤ p.budget := by
      rw [(sameStates_noted s i mem).2]
      exact h
    obtain ⟨heq, -⟩ | ⟨next, _, -, -, rfl, ⟨hover, heq⟩ | ⟨hle, hresult⟩⟩ :=
      p.tryEach_outcomes below s i is mem
    · rw [heq]
      exact ih hnoted
    · have hentered : ((p.noted s i mem).enter (p.fingerprint next)).explored
          = (p.noted s i mem).explored + 1 := rfl
      rw [heq]
      simp only [WithinBudget, if_true]
      omega
    · have hwithin := hbelow next _ hle
      obtain ⟨order, mem₁, hbelow, heq⟩ | ⟨mem₁, hbelow, heq⟩ | ⟨mem₁, hbelow, heq⟩ := hresult <;>
        rw [hbelow] at hwithin <;> rw [heq]
      · simpa [WithinBudget] using hwithin
      · exact ih (by simpa [WithinBudget] using hwithin)
      · exact hwithin

theorem withinBudget_searchFrom {n : Nat} {s : SearchState} {mem : Memory} (h : mem.explored ≤ p.budget) :
    p.WithinBudget (p.searchFrom n s mem) := by
  induction n generalizing s mem with
  | zero => simpa [WithinBudget, searchFrom] using h
  | succ n ih => exact withinBudget_tryEach (fun next mem => ih) h

/-! ## Results -/

variable (p) (current : Value)

theorem withinBudget_search : p.WithinBudget (p.search current) :=
  withinBudget_searchFrom (Nat.zero_le _)

/-- The error of the budget tells a search that is cut off from all others. -/
theorem sort_eq_overBudget_iff :
    p.sort current = .error p.overBudget ↔ (p.search current).1 = .outOfBudget := by
  have hcount := p.withinBudget_search current
  rw [sort_eq]
  generalize p.search current = result at hcount ⊢
  obtain ⟨verdict, mem⟩ := result
  cases verdict with
  | found order => simp
  | outOfBudget =>
    have hexplored : mem.explored = p.budget + 1 := hcount
    simp [overBudget, hexplored]
  | deadEnd =>
    -- Another failure may give the same reason, but not that number of states.
    have hexplored : mem.explored ≤ p.budget := hcount
    simp only [Except.error.injEq, reduceCtorEq, iff_false, failure]
    split
    · simp [overBudget]
    · simp only [overBudget, UpdateError.structural.injEq, not_and]
      omega

/-- A search that does not end in the error of its budget ends in the same way under every larger budget, with
the same plan or the same error. One that is cut off, and no other, ends in the error of its budget, which tells
one state more than the budget allows. -/
theorem sort_withBudget (hle : p.budget ≤ larger) :
    (p.sort current ≠ .error p.overBudget → (p.withBudget larger).sort current = p.sort current) ∧
      (p.sort current = .error p.overBudget ↔ (p.search current).1 = .outOfBudget) := by
  have hover := p.sort_eq_overBudget_iff current
  refine ⟨fun h => ?_, hover⟩
  have hverdict : (p.search current).1 ≠ .outOfBudget := fun hcut => h (hover.2 hcut)
  have hsearch : (p.withBudget larger).search current = p.search current :=
    searchFrom_withBudget hle hverdict
  rw [sort_eq, sort_eq, hsearch]
  generalize p.search current = result at hverdict ⊢
  obtain ⟨verdict, mem⟩ := result
  cases verdict with
  | outOfBudget => exact absurd rfl hverdict
  | found order => rfl
  | deadEnd => rfl

/-- The two additions are ordered when the last state that the budget allows has been entered. -/
theorem sort_withBudget_memberFirst :
    memberFirst.budget ≤ 10 ∧ memberFirst.sort noVlans ≠ .error memberFirst.overBudget ∧
      (memberFirst.withBudget 10).sort noVlans = .ok [addVlan, addMember] := by
  have hle : memberFirst.budget ≤ 10 := by decide
  have hends : memberFirst.sort noVlans ≠ .error memberFirst.overBudget := by
    rw [sort_memberFirst]
    exact nofun
  exact ⟨hle, hends, ((sort_withBudget memberFirst noVlans hle).1 hends).trans sort_memberFirst⟩

end Problem

end ConfigUpdate
