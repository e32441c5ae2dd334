import ConfigUpdate.Proofs.PreferenceOrder
import ConfigUpdate.Proofs.SearchStep

/-!
# Searches that never get stuck

If from every state that a search can get to some candidate leads on, a search goes straight down to a
state without moves left: it turns back nowhere, and it takes no state for one that it knows, since the
states it has entered before have more moves left. So it finds an order within a budget of one state for
each move: `Problem.sort_of_progress`.
-/

namespace ConfigUpdate

namespace Problem

variable {p : Problem} {current : Value}

/-- From every state that the search can get to, with moves left, a candidate leads on. -/
def Progress (p : Problem) (current : Value) : Prop :=
  ∀ s, p.Reachable current s → s.remaining ≠ [] → ∃ i ∈ s.remaining, ∃ next, p.next? s i = some next

/-- The memory knows only states that the search can get to and that have at least `n` moves left. -/
def Remembers (p : Problem) (current : Value) (n : Nat) (mem : Memory) : Prop :=
  ∀ print, mem.visited.contains print = true →
    ∃ s, p.Reachable current s ∧ p.fingerprint s = print ∧ n ≤ s.remaining.length

theorem Remembers.congr {n : Nat} {mem mem' : Memory} (h : p.Remembers current n mem)
    (hmem : Memory.SameStates mem' mem) : p.Remembers current n mem' := by
  intro print hprint
  rw [hmem.1] at hprint
  exact h print hprint

/-- A state with fewer moves left than all that the memory knows is a new one. -/
theorem not_visited {n : Nat} {next : SearchState} {mem : Memory} (hfree : p.CollisionFree current)
    (hnext : p.Reachable current next) (hn : next.remaining.length = n)
    (hmem : p.Remembers current (n + 1) mem) :
    mem.visited.contains (p.fingerprint next) = false := by
  by_contra hknown
  obtain ⟨s, hs, hprint, hlength⟩ := hmem _ (by simpa using hknown)
  have hsame := (hfree s next hs hnext hprint).2
  rw [hsame, hn] at hlength
  omega

theorem Remembers.enter {n : Nat} {next : SearchState} {mem : Memory}
    (hmem : p.Remembers current (n + 1) mem) (hnext : p.Reachable current next)
    (hn : next.remaining.length = n) : p.Remembers current n (mem.enter (p.fingerprint next)) := by
  intro print hprint
  rcases Memory.contains_enter.1 hprint with hprint | hprint
  · exact ⟨next, hnext, hprint, Nat.le_of_eq hn.symm⟩
  · obtain ⟨s, hs, heq, hlength⟩ := hmem print hprint
    exact ⟨s, hs, heq, by omega⟩

/-- Candidates of which one leads on are tried up to the first that does. -/
theorem tryEach_finds {below : SearchState → Memory → Verdict × Memory} {s : SearchState} {n : Nat}
    (hfree : p.CollisionFree current) (hs : p.Reachable current s)
    (hn : s.remaining.length = n + 1)
    (hbelow : ∀ next mem, p.Reachable current next → next.remaining.length = n →
      p.Remembers current n mem → mem.explored + n ≤ p.budget →
        ∃ order mem', below next mem = (.found order, mem'))
    {is : List Nat} (his : ∀ i ∈ is, i ∈ s.remaining)
    (hsome : ∃ i ∈ is, ∃ next, p.next? s i = some next) {mem : Memory}
    (hmem : p.Remembers current (n + 1) mem) (hbudget : mem.explored + (n + 1) ≤ p.budget) :
    ∃ order mem', p.tryEach below s is mem = (.found order, mem') := by
  induction is generalizing mem with
  | nil =>
    obtain ⟨i, hi, -⟩ := hsome
    cases hi
  | cons i is ih =>
    have hstates := p.sameStates_noted s i mem
    have hreach : ∀ next, p.next? s i = some next →
        p.Reachable current next ∧ next.remaining.length = n := fun next hnext =>
      ⟨.step hs (his i List.mem_cons_self) hnext, length_remaining_of_next (his i List.mem_cons_self) hn hnext⟩
    obtain ⟨heq, hknown⟩ | ⟨next, _, hnext, -, rfl, hentered⟩ := p.tryEach_outcomes below s i is mem
    · -- The candidate does not lead on, since a state to which it led would be a new one.
      rw [heq]
      refine ih (fun j hj => his j (List.mem_cons_of_mem i hj)) ?_ (hmem.congr hstates) ?_
      · obtain ⟨j, hj, next, hnext⟩ := hsome
        rcases List.mem_cons.1 hj with rfl | hj
        · have hnew := not_visited hfree (hreach next hnext).1 (hreach next hnext).2 (hmem.congr hstates)
          rw [hknown next hnext] at hnew
          cases hnew
        · exact ⟨j, hj, next, hnext⟩
      · rw [hstates.2]
        exact hbudget
    · -- The state is within the budget, so the search goes on below it and stays there.
      obtain ⟨hnew, hlength⟩ := hreach next hnext
      have hexplored : ((p.noted s i mem).enter (p.fingerprint next)).explored = mem.explored + 1 :=
        congrArg (· + 1) hstates.2
      obtain ⟨order, mem₁, hfound⟩ := hbelow next _ hnew hlength ((hmem.congr hstates).enter hnew hlength)
        (by omega)
      obtain ⟨hover, -⟩ | ⟨-, ⟨_, _, -, heq⟩ | ⟨_, hresult, -⟩ | ⟨_, hresult, -⟩⟩ := hentered
      · omega
      · exact ⟨_, _, heq⟩
      · rw [hfound] at hresult
        cases congrArg Prod.fst hresult
      · rw [hfound] at hresult
        cases congrArg Prod.fst hresult

theorem searchFrom_finds (hfree : p.CollisionFree current) (hprogress : p.Progress current) {n : Nat}
    {s : SearchState} {mem : Memory} (hs : p.Reachable current s) (hn : s.remaining.length = n)
    (hmem : p.Remembers current n mem) (hbudget : mem.explored + n ≤ p.budget) :
    ∃ order mem', p.searchFrom n s mem = (.found order, mem') := by
  induction n generalizing s mem with
  | zero => exact ⟨[], mem, rfl⟩
  | succ n ih =>
    have hleft : s.remaining ≠ [] := by
      rintro hnil
      rw [hnil] at hn
      cases hn
    exact tryEach_finds hfree hs hn (fun next mem hnext => ih hnext)
      (fun i hi => hi) (hprogress s hs hleft) hmem hbudget

/-- A search that never gets stuck finds an order. -/
theorem sort_of_progress (hfree : p.CollisionFree current) (hprogress : p.Progress current)
    (hbudget : p.moves.length ≤ p.budget) : ∃ sorted, p.sort current = .ok sorted := by
  have hlength : (preferenceOrder p.moves).length = p.moves.length := by
    rw [(preferenceOrder_perm p.moves).length_eq, List.length_range]
  have hstart : p.Remembers current p.moves.length
      (Memory.start (p.fingerprint ⟨current, preferenceOrder p.moves⟩)) := by
    intro print hprint
    exact ⟨_, .start, Memory.contains_start.1 hprint, Nat.le_of_eq hlength.symm⟩
  obtain ⟨order, mem, hfound⟩ := searchFrom_finds hfree hprogress .start hlength hstart
    (by simpa [Memory.start] using hbudget)
  have hsearch : p.search current = (.found order, mem) := hfound
  rw [sort_eq, hsearch]
  exact ⟨_, rfl⟩

end Problem

end ConfigUpdate
