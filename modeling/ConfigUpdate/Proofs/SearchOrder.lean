import ConfigUpdate.Proofs.SearchSoundness

/-!
# The search finds the least order

A search that is not cut off by its budget agrees with trying all orders: it finds the least order, where
moves rank as preferred, and it fails only if there is none. The invariant is that every state the memory
knows is a dead end, or has at least as many moves left as the state that is searched, so that a state
that is taken for a known one cannot lead to the end (`dead_of_visited`).

The search needs of its fingerprints that the same orders lead on from states with one fingerprint:
`PrintsAgree`, `findsLeast`.
-/

namespace ConfigUpdate

namespace Problem

variable (p : Problem)

/-- An order of the positions in which the moves can be made one after another from a tree, so that the
oracle accepts every tree on the way. -/
def ValidOrder (current : Value) (order : List Nat) : Prop :=
  order.Perm (List.range p.moves.length) ∧
    ∃ last, Move.Run p.oracle current (order.filterMap (p.moves[·]?)) last

/-- The place of a position in the preferred order. -/
def rank (i : Nat) : Nat :=
  (preferenceOrder p.moves).idxOf i

/-- One order comes before another one in the lexicographic order of the ranks. -/
def Before (order other : List Nat) : Prop :=
  List.Lex (fun i j => p.rank i < p.rank j) order other

/-- The plan is the least of the orders in which the moves can be made, and if there are none there is an
error. -/
def FindsLeast (current : Value) : Prop :=
  ((∃ order, p.ValidOrder current order) → ∃ least, p.ValidOrder current least ∧
      (∀ order, p.ValidOrder current order → order = least ∨ p.Before least order) ∧
      p.sort current = .ok (least.filterMap (p.moves[·]?))) ∧
    ((¬ ∃ order, p.ValidOrder current order) → ∃ e, p.sort current = .error e)

/-- The positions left in a state, in an order in which their moves lead to the end. -/
inductive Completes : SearchState → List Nat → Prop
  | done {s : SearchState} : s.remaining = [] → Completes s []
  | step {s next : SearchState} {i : Nat} {order : List Nat} :
    i ∈ s.remaining → p.next? s i = some next → Completes next order → Completes s (i :: order)

/-- Of two states that the search can get to and that have one fingerprint the same moves are left, and
the same orders lead to the end. -/
def PrintsAgree (current : Value) : Prop :=
  ∀ s s', p.Reachable current s → p.Reachable current s' → p.fingerprint s = p.fingerprint s' →
    s.remaining = s'.remaining ∧ ∀ order, p.Completes s order → p.Completes s' order

/-- A state from which no order leads to the end. -/
def Dead (s : SearchState) : Prop :=
  ∀ order, ¬ p.Completes s order

/-- Every state that the memory knows has at least `n` moves left or is a dead end. -/
def Settled (current : Value) (n : Nat) (mem : Memory) : Prop :=
  ∀ print, mem.visited.contains print = true →
    ∃ s, p.Reachable current s ∧ p.fingerprint s = print ∧ (n ≤ s.remaining.length ∨ p.Dead s)

/-- What one memory knows beyond another one are dead ends. -/
def Learns (current : Value) (mem mem' : Memory) : Prop :=
  ∀ print, mem'.visited.contains print = true → mem.visited.contains print = true ∨
    ∃ s, p.Reachable current s ∧ p.fingerprint s = print ∧ p.Dead s

variable {p} {current : Value} {s next : SearchState} {i n : Nat}

/-! ## Orders from a state -/

theorem run_of_completes {order : List Nat} (h : p.Completes s order) :
    order.Perm s.remaining ∧
      ∃ last, Move.Run p.oracle s.tree (order.filterMap (p.moves[·]?)) last := by
  induction h with
  | done hdone =>
    rw [hdone]
    exact ⟨List.Perm.refl _, _, .nil _⟩
  | step hi hnext _ ih =>
    obtain ⟨m, after, hm, hcheck, hrun, haccepted, rfl⟩ := next?_eq_some_iff.1 hnext
    obtain ⟨hperm, last, hrest⟩ := ih
    refine ⟨(hperm.cons _).trans (List.perm_cons_erase hi).symm, last, ?_⟩
    rw [List.filterMap_cons_some hm]
    exact .cons hcheck hrun haccepted hrest

theorem completes_of_run {order : List Nat} {last : Value}
    (hmoves : ∀ i ∈ s.remaining, i < p.moves.length) (hperm : order.Perm s.remaining)
    (hrun : Move.Run p.oracle s.tree (order.filterMap (p.moves[·]?)) last) : p.Completes s order := by
  induction order generalizing s with
  | nil => exact .done hperm.symm.eq_nil
  | cons i order ih =>
    have hi : i ∈ s.remaining := hperm.subset List.mem_cons_self
    obtain ⟨m, hm⟩ : ∃ m, p.moves[i]? = some m := ⟨_, List.getElem?_eq_getElem (hmoves i hi)⟩
    rw [List.filterMap_cons_some hm] at hrun
    cases hrun with
    | cons hcheck hstep haccepted hrest =>
      have hnext := next?_eq_some_iff.2 ⟨_, _, hm, hcheck, hstep, haccepted, rfl⟩
      refine .step hi hnext (ih (fun j hj => hmoves j (List.mem_of_mem_erase hj)) ?_ hrest)
      exact (hperm.trans (List.perm_cons_erase hi)).cons_inv

theorem mem_preferenceOrder_iff : i ∈ preferenceOrder p.moves ↔ i < p.moves.length := by
  rw [(preferenceOrder_perm p.moves).mem_iff, List.mem_range]

/-- The orders of a problem are those that lead from the first state to the end. -/
theorem validOrder_iff {order : List Nat} :
    p.ValidOrder current order ↔ p.Completes ⟨current, preferenceOrder p.moves⟩ order := by
  constructor
  · rintro ⟨hperm, last, hrun⟩
    exact completes_of_run (fun i hi => mem_preferenceOrder_iff.1 hi)
      (hperm.trans (preferenceOrder_perm p.moves).symm) hrun
  · intro h
    obtain ⟨hperm, hrun⟩ := run_of_completes h
    exact ⟨hperm.trans (preferenceOrder_perm p.moves), hrun⟩

/-- Where there is no order, none is returned. -/
theorem exists_error_of_no_order (hnone : ¬ ∃ order, p.ValidOrder current order) :
    ∃ e, p.sort current = .error e := by
  cases h : p.sort current with
  | error e => exact ⟨e, rfl⟩
  | ok sorted =>
    obtain ⟨order, hperm, rfl, last, hrun⟩ := order_of_sort h
    exact absurd ⟨order, hperm, last, hrun⟩ hnone

/-- The moves that are left are tried in ascending rank. -/
theorem Reachable.ascending (h : p.Reachable current s) :
    s.remaining.Pairwise fun i j => p.rank i < p.rank j := by
  have hnodup : (preferenceOrder p.moves).Nodup :=
    (preferenceOrder_perm p.moves).nodup_iff.2 List.nodup_range
  refine List.Pairwise.sublist h.sublist (List.pairwise_iff_getElem.2 fun i j hi hj hij => ?_)
  simpa only [rank, hnodup.idxOf_getElem] using hij

/-! ## Known states -/

/-- A state with fewer moves left than all states that are still searched, which is taken for a known
one, is a dead end. -/
theorem dead_of_visited (hprints : p.PrintsAgree current) {mem : Memory}
    (hnext : p.Reachable current next) (hn : next.remaining.length = n)
    (hmem : p.Settled current (n + 1) mem)
    (hvisited : mem.visited.contains (p.fingerprint next) = true) : p.Dead next := by
  obtain ⟨s, hs, hprint, hknown⟩ := hmem _ hvisited
  obtain ⟨hremaining, horders⟩ := hprints next s hnext hs hprint.symm
  rcases hknown with hlength | hdead
  · rw [← hremaining, hn] at hlength
    omega
  · exact fun order horder => hdead order (horders order horder)

/-! ## Memories -/

theorem Learns.refl_of_sameStates {mem mem' : Memory} (h : Memory.SameStates mem' mem) :
    p.Learns current mem mem' := by
  intro print hprint
  rw [h.1] at hprint
  exact .inl hprint

theorem Learns.trans {mem mem' mem'' : Memory} (h : p.Learns current mem mem')
    (h' : p.Learns current mem' mem'') : p.Learns current mem mem'' := by
  intro print hprint
  rcases h' print hprint with hprint | hdead
  · exact h print hprint
  · exact .inr hdead

theorem Settled.learns {mem mem' : Memory} (h : p.Settled current n mem)
    (hlearns : p.Learns current mem mem') : p.Settled current n mem' := by
  intro print hprint
  rcases hlearns print hprint with hprint | ⟨s, hs, heq, hdead⟩
  · exact h print hprint
  · exact ⟨s, hs, heq, .inr hdead⟩

theorem Settled.enter {mem : Memory} (h : p.Settled current (n + 1) mem)
    (hnext : p.Reachable current next) (hn : next.remaining.length = n) :
    p.Settled current n (mem.enter (p.fingerprint next)) := by
  intro print hprint
  rcases Memory.contains_enter.1 hprint with heq | hprint
  · exact ⟨next, hnext, heq, .inl (Nat.le_of_eq hn.symm)⟩
  · obtain ⟨s, hs, heq, hknown⟩ := h print hprint
    exact ⟨s, hs, heq, hknown.imp_left Nat.le_of_succ_le⟩

theorem settled_start : p.Settled current (preferenceOrder p.moves).length
    (Memory.start (p.fingerprint ⟨current, preferenceOrder p.moves⟩)) := by
  intro print hprint
  exact ⟨_, .start, Memory.contains_start.1 hprint, .inl (Nat.le_refl _)⟩

/-! ## Candidates -/

/-- A search below a state that comes back has shown a dead end, and has learnt dead ends only. -/
def ComesBackDead (p : Problem) (current : Value) (n : Nat)
    (below : SearchState → Memory → Verdict × Memory) : Prop :=
  ∀ next mem mem', p.Reachable current next → next.remaining.length = n →
    p.Settled current n mem → below next mem = (.deadEnd, mem') →
      p.Dead next ∧ p.Learns current mem mem'

section Candidates

variable {below : SearchState → Memory → Verdict × Memory} {order : List Nat} {mem mem' : Memory}
variable (is : List Nat)
variable (hprints : p.PrintsAgree current)
variable (hs : p.Reachable current s) (hn : s.remaining.length = n + 1)
variable (hbelow : p.ComesBackDead current n below)

include hprints hs hn hbelow

/-- The first of some candidates is passed over, and then it leads to a dead end if anywhere; or an order
is found below it; or the search is cut off. -/
theorem tryEach_cases (hi : i ∈ s.remaining) (hmem : p.Settled current (n + 1) mem) :
    (∃ mem₁, p.tryEach below s (i :: is) mem = p.tryEach below s is mem₁ ∧
        p.Learns current mem mem₁ ∧ ∀ next, p.next? s i = some next → p.Dead next) ∨
      (∃ next rest mem₁ mem₂, p.next? s i = some next ∧ p.Settled current n mem₁ ∧
        below next mem₁ = (.found rest, mem₂) ∧
          p.tryEach below s (i :: is) mem = (.found (i :: rest), mem₂)) ∨
      ∃ mem₁, p.tryEach below s (i :: is) mem = (.outOfBudget, mem₁) := by
  have hstates := p.sameStates_noted s i mem
  have hlearns : p.Learns current mem (p.noted s i mem) := .refl_of_sameStates hstates
  obtain ⟨heq, hknown⟩ | ⟨next, _, hnext, -, rfl, hentered⟩ := p.tryEach_outcomes below s i is mem
  · refine .inl ⟨_, heq, hlearns, fun next hnext => ?_⟩
    have hvisited := hknown next hnext
    rw [hstates.1] at hvisited
    exact dead_of_visited hprints (.step hs hi hnext) (length_remaining_of_next hi hn hnext) hmem hvisited
  · have hreach : p.Reachable current next := .step hs hi hnext
    have hlength := length_remaining_of_next hi hn hnext
    have hsettled := (hmem.learns hlearns).enter hreach hlength
    obtain ⟨-, heq⟩ | ⟨-, ⟨rest, mem₁, hresult, heq⟩ | ⟨mem₁, hresult, heq⟩ | ⟨mem₁, -, heq⟩⟩ := hentered
    · exact .inr (.inr ⟨_, heq⟩)
    · exact .inr (.inl ⟨next, rest, _, mem₁, hnext, hsettled, hresult, heq⟩)
    · -- What was learnt is the state itself and what was learnt below it.
      obtain ⟨hdead, hbeyond⟩ := hbelow next _ mem₁ hreach hlength hsettled hresult
      refine .inl ⟨mem₁, heq, fun print hprint => ?_, fun next' hnext' => ?_⟩
      · rcases hbeyond print hprint with hprint | hknown
        · rcases Memory.contains_enter.1 hprint with hprint | hprint
          · exact .inr ⟨next, hreach, hprint, hdead⟩
          · exact hlearns print hprint
        · exact .inr hknown
      · obtain rfl : next = next' := Option.some.inj (hnext.symm.trans hnext')
        exact hdead
    · exact .inr (.inr ⟨_, heq⟩)

theorem tryEach_deadEnd (his : ∀ i ∈ is, i ∈ s.remaining) (hmem : p.Settled current (n + 1) mem)
    (h : p.tryEach below s is mem = (.deadEnd, mem')) :
    (∀ i ∈ is, ∀ next, p.next? s i = some next → p.Dead next) ∧ p.Learns current mem mem' := by
  induction is generalizing mem with
  | nil =>
    obtain rfl := congrArg Prod.snd h
    exact ⟨by simp, fun print hprint => .inl hprint⟩
  | cons i is ih =>
    obtain ⟨hi, his⟩ := List.forall_mem_cons.1 his
    obtain ⟨mem₁, heq, hlearns, hdead⟩ | ⟨_, _, _, _, -, -, -, heq⟩ | ⟨_, heq⟩ :=
      tryEach_cases is hprints hs hn hbelow hi hmem
    · rw [heq] at h
      obtain ⟨hrest, hlearns'⟩ := ih his (hmem.learns hlearns) h
      exact ⟨List.forall_mem_cons.2 ⟨hdead, hrest⟩, hlearns.trans hlearns'⟩
    · rw [heq] at h
      cases congrArg Prod.fst h
    · rw [heq] at h
      cases congrArg Prod.fst h

/-- An order is found below the first candidate that does not lead to a dead end. -/
theorem tryEach_found_first (his : ∀ i ∈ is, i ∈ s.remaining) (hmem : p.Settled current (n + 1) mem)
    (h : p.tryEach below s is mem = (.found order, mem')) :
    ∃ passed i later next rest mem₁, is = passed ++ i :: later ∧
      (∀ j ∈ passed, ∀ next, p.next? s j = some next → p.Dead next) ∧
      p.next? s i = some next ∧ p.Settled current n mem₁ ∧
      below next mem₁ = (.found rest, mem') ∧ order = i :: rest := by
  induction is generalizing mem with
  | nil => cases congrArg Prod.fst h
  | cons i is ih =>
    obtain ⟨hi, his⟩ := List.forall_mem_cons.1 his
    obtain ⟨mem₁, heq, hlearns, hdead⟩ | ⟨next, rest, mem₁, mem₂, hnext, hsettled, hresult, heq⟩ |
        ⟨_, heq⟩ := tryEach_cases is hprints hs hn hbelow hi hmem
    · rw [heq] at h
      obtain ⟨passed, j, later, next, rest, mem₂, rfl, hpassed, hfound⟩ :=
        ih his (hmem.learns hlearns) h
      exact ⟨i :: passed, j, later, next, rest, mem₂, rfl,
        List.forall_mem_cons.2 ⟨hdead, hpassed⟩, hfound⟩
    · rw [heq] at h
      obtain ⟨horder, rfl⟩ := Prod.mk.inj h
      cases horder
      exact ⟨[], i, is, next, rest, mem₁, rfl, by simp, hnext, hsettled, hresult, rfl⟩
    · rw [heq] at h
      cases congrArg Prod.fst h

end Candidates

/-! ## Searches -/

section Searches

variable (hprints : p.PrintsAgree current)

include hprints

/-- A search from a state comes back only from a dead end. -/
theorem searchFrom_deadEnd : p.ComesBackDead current n (p.searchFrom n) := by
  induction n with
  | zero =>
    intro s mem mem' _ _ _ h
    cases congrArg Prod.fst h
  | succ n ih =>
    intro s mem mem' hs hn hmem h
    obtain ⟨hcandidates, hlearns⟩ :=
      tryEach_deadEnd _ hprints hs hn ih (fun i hi => hi) hmem h
    refine ⟨fun order horder => ?_, hlearns⟩
    cases horder with
    | done hdone => simp [hdone] at hn
    | step hi hnext hrest => exact hcandidates _ hi _ hnext _ hrest

/-- An order that is found leads to the end, and comes before all others that do. -/
theorem searchFrom_least {order : List Nat} {mem mem' : Memory} (hs : p.Reachable current s)
    (hn : s.remaining.length = n) (hmem : p.Settled current n mem)
    (h : p.searchFrom n s mem = (.found order, mem')) :
    p.Completes s order ∧ ∀ other, p.Completes s other → other = order ∨ p.Before order other := by
  induction n generalizing s order mem with
  | zero =>
    have horder : order = [] := by simpa [searchFrom, eq_comm] using congrArg Prod.fst h
    subst horder
    have hdone := List.length_eq_zero_iff.1 hn
    refine ⟨.done hdone, fun other hother => .inl ?_⟩
    have hperm := (run_of_completes hother).1
    rw [hdone] at hperm
    exact hperm.eq_nil
  | succ n ih =>
    obtain ⟨passed, i, later, next, rest, mem₁, hsplit, hpassed, hnext, hsettled, hresult, rfl⟩ :=
      tryEach_found_first _ hprints hs hn (searchFrom_deadEnd hprints) (fun i hi => hi) hmem h
    have hi : i ∈ s.remaining := by simp [hsplit]
    have hlength := length_remaining_of_next hi hn hnext
    obtain ⟨hcompletes, hleast⟩ := ih (.step hs hi hnext) hlength hsettled hresult
    refine ⟨.step hi hnext hcompletes, fun other hother => ?_⟩
    cases hother with
    | done hdone => simp [hdone] at hi
    | @step _ next' j other hj hnext' hrest =>
      rw [hsplit] at hj
      rcases List.mem_append.1 hj with hj | hj
      · exact absurd hrest (hpassed j hj next' hnext' other)
      · rcases List.mem_cons.1 hj with rfl | hj
        · rw [hnext, Option.some.injEq] at hnext'
          subst hnext'
          exact (hleast other hrest).imp (congrArg (j :: ·)) .cons
        · have hascending := hs.ascending
          rw [hsplit] at hascending
          have hrank := (List.pairwise_cons.1 (List.pairwise_append.1 hascending).2.1).1 j hj
          exact .inr (.rel hrank)

end Searches

/-- A search that is not cut off agrees with trying all orders, if the same orders lead on from states with
one fingerprint. -/
theorem findsLeast (hprints : p.PrintsAgree current) (hbudget : (p.search current).1 ≠ .outOfBudget) :
    p.FindsLeast current := by
  have hlength : (preferenceOrder p.moves).length = p.moves.length := by
    rw [(preferenceOrder_perm p.moves).length_eq, List.length_range]
  have hstart := (settled_start : p.Settled current _ _)
  rw [hlength] at hstart
  refine ⟨?_, exists_error_of_no_order⟩
  simp only [validOrder_iff]
  rcases hsearch : p.search current with ⟨verdict, mem⟩
  cases verdict with
  | outOfBudget => exact absurd (congrArg Prod.fst hsearch) hbudget
  | found order =>
    obtain ⟨hcompletes, hleast⟩ := searchFrom_least hprints .start hlength hstart hsearch
    exact fun _ => ⟨order, hcompletes, hleast, by rw [sort_eq, hsearch]⟩
  | deadEnd =>
    have hdead := (searchFrom_deadEnd hprints _ _ _ .start hlength hstart hsearch).1
    rintro ⟨order, horder⟩
    exact absurd horder (hdead order)

end Problem

end ConfigUpdate
