import ConfigUpdate.Proofs.EqualStates
import Mathlib.Data.Set.Card

/-!
# What the error of a search says

All that the memory of a search holds was seen in a state that it can get to (`honest_search`), so its error
tells nothing that was not seen. A search that comes back without an order has tried every move that is left
in every state that it knows (`explored_of_deadEnd`), and if equal states allow the same moves it knows all
states up to equality (`explored_of_reachable`). Then its error names the first move that never finds what it
expects, and if there is no such move it tells how many states there are: `Problem.sort_failure`. Where equal
states do not allow the same moves it can name a move that does find what it expects:
`Problem.exists_hidden_state`.
-/

namespace ConfigUpdate

/-- One memory has kept all that another one knew. -/
structure Memory.Keeps (mem mem' : Memory) : Prop where
  held : ∀ i ∈ mem.held, i ∈ mem'.held
  faults : ∀ i, (mem.faults.get? i).isSome → (mem'.faults.get? i).isSome
  visited : ∀ print, mem.visited.contains print = true → mem'.visited.contains print = true

namespace Memory.Keeps

theorem refl (mem : Memory) : mem.Keeps mem :=
  ⟨fun _ h => h, fun _ h => h, fun _ h => h⟩

theorem trans {mem mem' mem'' : Memory} (h : mem.Keeps mem') (h' : mem'.Keeps mem'') : mem.Keeps mem'' :=
  ⟨fun i hi => h'.held i (h.held i hi), fun i hi => h'.faults i (h.faults i hi),
    fun print hprint => h'.visited print (h.visited print hprint)⟩

theorem hold (mem : Memory) (i : Nat) : mem.Keeps (mem.hold i) :=
  ⟨fun _ h => Memory.mem_held_hold.2 (.inr h), fun _ h => by simpa using h, fun _ h => by simpa using h⟩

theorem fail (mem : Memory) (i : Nat) (e : PreconditionError) : mem.Keeps (mem.fail i e) := by
  refine ⟨fun _ h => h, fun j h => ?_, fun _ h => h⟩
  rw [Memory.get?_faults_fail]
  split
  · rfl
  · exact h

end Memory.Keeps

namespace Problem

variable {p : Problem} {current : Value} {s next : SearchState} {i n : Nat} {mem mem' : Memory}

theorem keeps_noted (s : SearchState) (i : Nat) (mem : Memory) : mem.Keeps (p.noted s i mem) := by
  have hhold : mem.Keeps (mem.hold i) := .hold mem i
  obtain ⟨-, -, hnoted⟩ | ⟨m, -, ⟨e, -, -, hnoted⟩ | ⟨-, ⟨e, -, -, hnoted⟩ |
    ⟨after, -, ⟨r, -, -, hnoted⟩ | ⟨-, -, hnoted⟩⟩⟩⟩ := p.candidate_cases s i mem <;> rw [hnoted]
  · exact .refl mem
  · exact .fail mem i e
  · exact hhold.trans (.fail _ i _)
  · exact ⟨hhold.held, hhold.faults, hhold.visited⟩
  · exact hhold

theorem keeps_enter (print : UInt64) (mem : Memory) : mem.Keeps (mem.enter print) :=
  ⟨fun _ h => h, fun _ h => h, fun _ h => Memory.contains_enter.2 (.inr h)⟩

/-! ## What has been tried -/

/-- The memory knows what a candidate tells in a state: that it finds what it expects, or a fault, and the
state behind it. -/
structure Tried (p : Problem) (mem : Memory) (s : SearchState) (i : Nat) : Prop where
  held : ∀ m, p.moves[i]? = some m → m.check s.tree = .ok () → i ∈ mem.held
  faulted : ∀ m e, p.moves[i]? = some m → m.check s.tree = .error e → (mem.faults.get? i).isSome
  entered : ∀ next, p.next? s i = some next → mem.visited.contains (p.fingerprint next) = true

/-- The memory knows what all moves that are left tell in a state. -/
def Explored (p : Problem) (mem : Memory) (s : SearchState) : Prop :=
  ∀ i ∈ s.remaining, p.Tried mem s i

theorem Tried.keeps (h : p.Tried mem s i) (hkeeps : mem.Keeps mem') : p.Tried mem' s i where
  held m hm hc := hkeeps.held i (h.held m hm hc)
  faulted m e hm hc := hkeeps.faults i (h.faulted m e hm hc)
  entered next hnext := hkeeps.visited _ (h.entered next hnext)

theorem Explored.keeps (h : p.Explored mem s) (hkeeps : mem.Keeps mem') : p.Explored mem' s :=
  fun i hi => (h i hi).keeps hkeeps

/-- After a look at a candidate the memory knows what it tells, if the state behind it is known. -/
theorem tried_of_keeps (hkeeps : (p.noted s i mem).Keeps mem')
    (hknown : ∀ next, p.next? s i = some next → mem'.visited.contains (p.fingerprint next) = true) :
    p.Tried mem' s i := by
  refine ⟨fun m hm hc => hkeeps.held i ?_, fun m e hm hc => hkeeps.faults i ?_, hknown⟩
  · obtain ⟨hm', -, -⟩ | ⟨m', hm', ⟨e, hc', -, -⟩ | ⟨-, ⟨e, -, -, hnoted⟩ |
      ⟨after, -, ⟨r, -, -, hnoted⟩ | ⟨-, -, hnoted⟩⟩⟩⟩ := p.candidate_cases s i mem
    · rw [hm] at hm'
      cases hm'
    · obtain rfl : m = m' := Option.some.inj (hm.symm.trans hm')
      rw [hc] at hc'
      cases hc'
    all_goals
      rw [hnoted]
      exact Memory.mem_held_hold.2 (.inl rfl)
  · obtain ⟨hm', -, -⟩ | ⟨m', hm', ⟨e', -, -, hnoted⟩ | ⟨hc', -⟩⟩ := p.candidate_cases s i mem
    · rw [hm] at hm'
      cases hm'
    · rw [hnoted, Memory.get?_faults_fail, if_pos rfl]
      rfl
    · obtain rfl : m = m' := Option.some.inj (hm.symm.trans hm')
      rw [hc] at hc'
      cases hc'

/-- What one memory knows beyond another one are fingerprints of states that are explored. -/
def ExploresNew (p : Problem) (current : Value) (mem mem' : Memory) : Prop :=
  ∀ print, mem'.visited.contains print = true → mem.visited.contains print = true ∨
    ∃ s, p.Reachable current s ∧ p.fingerprint s = print ∧ p.Explored mem' s

theorem ExploresNew.trans {mem'' : Memory} (h : p.ExploresNew current mem mem')
    (h' : p.ExploresNew current mem' mem'') (hkeeps : mem'.Keeps mem'') : p.ExploresNew current mem mem'' := by
  intro print hvisited
  rcases h' print hvisited with hvisited | hexplored
  · rcases h print hvisited with hvisited | ⟨s, hs, heq, hexplored⟩
    · exact .inl hvisited
    · exact .inr ⟨s, hs, heq, hexplored.keeps hkeeps⟩
  · exact .inr hexplored

/-- A state that is entered, and explored before the search comes back, is no new state that is not explored. -/
theorem exploresNew_enter (hnext : p.Reachable current next) (hexplored : p.Explored mem' next)
    (hnew : p.ExploresNew current (mem.enter (p.fingerprint next)) mem') : p.ExploresNew current mem mem' := by
  intro print hvisited
  rcases hnew print hvisited with hvisited | hexplored'
  · rcases Memory.contains_enter.1 hvisited with hprint | hvisited
    · exact .inr ⟨next, hnext, hprint, hexplored⟩
    · exact .inl hvisited
  · exact .inr hexplored'

/-- A search that comes back has explored the state below which it has searched and all that it has entered. -/
def ComesBackExplored (p : Problem) (current : Value)
    (below : SearchState → Memory → Verdict × Memory) : Prop :=
  ∀ next mem mem', p.Reachable current next → below next mem = (.deadEnd, mem') →
    mem.Keeps mem' ∧ p.Explored mem' next ∧ p.ExploresNew current mem mem'

theorem tryEach_explores {below : SearchState → Memory → Verdict × Memory} {is : List Nat}
    (hbelow : p.ComesBackExplored current below) (hs : p.Reachable current s)
    (his : ∀ i ∈ is, i ∈ s.remaining) (h : p.tryEach below s is mem = (.deadEnd, mem')) :
    mem.Keeps mem' ∧ (∀ i ∈ is, p.Tried mem' s i) ∧ p.ExploresNew current mem mem' := by
  induction is generalizing mem with
  | nil =>
    obtain rfl : mem = mem' := congrArg Prod.snd h
    exact ⟨.refl mem, by simp, fun _ hvisited => .inl hvisited⟩
  | cons i is ih =>
    obtain ⟨hi, his⟩ := List.forall_mem_cons.1 his
    have hnoted := keeps_noted (p := p) s i mem
    have hstates : p.ExploresNew current mem (p.noted s i mem) := by
      intro print hvisited
      rw [(sameStates_noted s i mem).1] at hvisited
      exact .inl hvisited
    obtain ⟨heq, hknown⟩ | ⟨next, _, hnext, -, rfl, ⟨-, heq⟩ | ⟨-, ⟨_, _, -, heq⟩ |
      ⟨mem₁, hresult, heq⟩ | ⟨_, -, heq⟩⟩⟩ := p.tryEach_outcomes below s i is mem <;> rw [heq] at h
    · -- The candidate is passed over.
      obtain ⟨hkeeps, htried, hnew⟩ := ih his h
      have hfirst := tried_of_keeps hkeeps fun next hnext => hkeeps.visited _ (hknown next hnext)
      exact ⟨hnoted.trans hkeeps, List.forall_mem_cons.2 ⟨hfirst, htried⟩, hstates.trans hnew hkeeps⟩
    · cases congrArg Prod.fst h
    · cases congrArg Prod.fst h
    · -- The search comes back from the state behind the candidate.
      have hreach : p.Reachable current next := .step hs hi hnext
      obtain ⟨hkeeps₁, hexplored, hnew₁⟩ := hbelow next _ mem₁ hreach hresult
      obtain ⟨hkeeps, htried, hnew⟩ := ih his h
      have hnew₂ := hstates.trans (exploresNew_enter hreach hexplored hnew₁)
        ((keeps_enter _ _).trans hkeeps₁)
      have hafter := ((keeps_enter (p.fingerprint next) (p.noted s i mem)).trans hkeeps₁).trans hkeeps
      have hfirst : p.Tried mem' s i := by
        refine tried_of_keeps hafter fun next' hnext' => ?_
        obtain rfl : next = next' := Option.some.inj (hnext.symm.trans hnext')
        exact (hkeeps₁.trans hkeeps).visited _ (Memory.contains_enter.2 (.inl rfl))
      exact ⟨hnoted.trans hafter, List.forall_mem_cons.2 ⟨hfirst, htried⟩, hnew₂.trans hnew hkeeps⟩
    · cases congrArg Prod.fst h

theorem searchFrom_explores : p.ComesBackExplored current (p.searchFrom n) := by
  induction n with
  | zero =>
    intro s mem mem' _ h
    cases congrArg Prod.fst h
  | succ n ih =>
    intro s mem mem' hs h
    exact tryEach_explores ih hs (fun i hi => hi) h

/-- A search that comes back has explored the first state, and a state for every fingerprint that it knows. -/
theorem explored_of_deadEnd (h : p.search current = (.deadEnd, mem)) :
    mem.visited.contains (p.fingerprint ⟨current, preferenceOrder p.moves⟩) = true ∧
      p.Explored mem ⟨current, preferenceOrder p.moves⟩ ∧
      ∀ print, mem.visited.contains print = true →
        ∃ s, p.Reachable current s ∧ p.fingerprint s = print ∧ p.Explored mem s := by
  obtain ⟨hkeeps, hstart, hnew⟩ := searchFrom_explores _ _ _ .start h
  refine ⟨hkeeps.visited _ (Memory.contains_start.2 rfl), hstart, fun print hvisited => ?_⟩
  rcases hnew print hvisited with hfirst | hexplored
  · exact ⟨_, .start, Memory.contains_start.1 hfirst, hstart⟩
  · exact hexplored

/-! ## What equal states tell -/

/-- What is tried in a state is tried in an equal one. -/
theorem explored_of_same (hrespects : p.fingerprint.Respects) (hagree : p.EqualStatesAgree current)
    {s' : SearchState} (hs : p.Reachable current s) (hs' : p.Reachable current s') (hsame : s.Same s')
    (h : p.Explored mem s) : p.Explored mem s' := by
  intro i hi
  have htried := h i (hsame.2 ▸ hi)
  refine ⟨fun m hm hc => htried.held m hm ((Move.check_eq_ok_iff_of_same hsame.1).2 hc),
    fun m e hm hc => ?_, fun next hnext => ?_⟩
  · cases hc' : m.check s.tree with
    | ok u =>
      rw [(Move.check_eq_ok_iff_of_same hsame.1).1 hc'] at hc
      cases hc
    | error e' => exact htried.faulted m e' hm hc'
  · obtain ⟨next', hnext', hnexts⟩ := hagree.exists_next hs' hs hsame.symm hi hnext
    rw [hrespects _ _ hnexts]
    exact htried.entered next' hnext'

section Exploration

variable (hrespects : p.fingerprint.Respects) (hfree : p.CollisionFree current)
variable (hagree : p.EqualStatesAgree current)

include hrespects hfree hagree

/-- A search that comes back has entered every state that it can get to, or an equal one, and has explored
it. -/
theorem explored_of_reachable (h : p.search current = (.deadEnd, mem)) (hs : p.Reachable current s) :
    mem.visited.contains (p.fingerprint s) = true ∧ p.Explored mem s := by
  obtain ⟨hvisited, hstart, hknown⟩ := explored_of_deadEnd h
  have hexplored : ∀ t, p.Reachable current t → mem.visited.contains (p.fingerprint t) = true →
      p.Explored mem t := by
    intro t ht hvisited
    obtain ⟨s, hs, hprint, hexplored⟩ := hknown _ hvisited
    exact explored_of_same hrespects hagree hs ht (hfree s t hs ht hprint) hexplored
  induction hs with
  | start => exact ⟨hvisited, hstart⟩
  | step hs hi hnext ih =>
    have hvisited := (ih.2 _ hi).entered _ hnext
    exact ⟨hvisited, hexplored _ (.step hs hi hnext) hvisited⟩

end Exploration

/-! ## What has been seen -/

/-- A move that is left in some state gives this answer when it looks for what it expects there. -/
def Answers (p : Problem) (current : Value) (i : Nat) (answer : Except PreconditionError Unit) : Prop :=
  ∃ m s, p.moves[i]? = some m ∧ p.Reachable current s ∧ i ∈ s.remaining ∧ m.check s.tree = answer

/-- What a memory holds has been seen: answers and fingerprints in states that the search can get to, and a
refusal of the oracle. -/
structure Honest (p : Problem) (current : Value) (mem : Memory) : Prop where
  held : ∀ i ∈ mem.held, p.Answers current i (.ok ())
  faults : ∀ i e, mem.faults.get? i = some e → i ∈ mem.held ∨ p.Answers current i (.error e)
  refused : ∀ r, mem.rejection = some r → ∃ tree, p.oracle tree = .error r
  entered : ∃ states : Finset SearchState, states.card = mem.explored + 1 ∧
    (∀ s ∈ states, p.Reachable current s) ∧ Set.InjOn p.fingerprint states ∧
    ∀ print, mem.visited.contains print = true ↔ ∃ s ∈ states, p.fingerprint s = print

namespace Honest

theorem start : p.Honest current (.start (p.fingerprint ⟨current, preferenceOrder p.moves⟩)) where
  held := by simp [Memory.start]
  faults := by simp [Memory.start]
  refused := by simp [Memory.start]
  entered := by
    refine ⟨{⟨current, preferenceOrder p.moves⟩}, rfl, ?_, by simp, by simp [Memory.start]⟩
    intro s hs
    obtain rfl := Finset.mem_singleton.1 hs
    exact .start

theorem hold (h : p.Honest current mem) (hanswer : p.Answers current i (.ok ())) :
    p.Honest current (mem.hold i) where
  held j hj := by
    rcases Memory.mem_held_hold.1 hj with rfl | hj
    · exact hanswer
    · exact h.held j hj
  faults j e he := by
    rw [Memory.faults_hold] at he
    exact (h.faults j e he).imp_left fun hj => Memory.mem_held_hold.2 (.inr hj)
  refused := by
    rw [Memory.rejection_hold]
    exact h.refused
  entered := by
    rw [Memory.explored_hold, Memory.visited_hold]
    exact h.entered

theorem fail {e : PreconditionError} (h : p.Honest current mem)
    (he : i ∈ mem.held ∨ p.Answers current i (.error e)) : p.Honest current (mem.fail i e) where
  held := h.held
  faults j e' he' := by
    rw [Memory.get?_faults_fail] at he'
    split at he'
    · rename_i heq
      subst heq
      obtain rfl := Option.some.inj he'
      exact he
    · exact h.faults j e' he'
  refused := h.refused
  entered := h.entered

theorem noted (h : p.Honest current mem) (hs : p.Reachable current s) (hi : i ∈ s.remaining) :
    p.Honest current (p.noted s i mem) := by
  obtain ⟨-, -, hnoted⟩ | ⟨m, hm, ⟨e, hc, -, hnoted⟩ | ⟨hc, ⟨e, -, -, hnoted⟩ |
    ⟨after, -, ⟨r, hrefused, -, hnoted⟩ | ⟨-, -, hnoted⟩⟩⟩⟩ := p.candidate_cases s i mem <;> rw [hnoted]
  · exact h
  · exact h.fail (.inr ⟨m, s, hm, hs, hi, hc⟩)
  · exact (h.hold ⟨m, s, hm, hs, hi, hc⟩).fail (.inl (Memory.mem_held_hold.2 (.inl rfl)))
  · have hhold := h.hold ⟨m, s, hm, hs, hi, hc⟩
    exact ⟨hhold.held, hhold.faults, fun _ hr => ⟨after, Option.some.inj hr ▸ hrefused⟩, hhold.entered⟩
  · exact h.hold ⟨m, s, hm, hs, hi, hc⟩

theorem enter (h : p.Honest current mem) (hnext : p.Reachable current next)
    (hnew : mem.visited.contains (p.fingerprint next) = false) :
    p.Honest current (mem.enter (p.fingerprint next)) where
  held := h.held
  faults := h.faults
  refused := h.refused
  entered := by
    obtain ⟨states, hcard, hreach, hinjective, hvisited⟩ := h.entered
    have hfresh : ∀ s ∈ states, p.fingerprint s ≠ p.fingerprint next := by
      intro s hs hprint
      rw [(hvisited _).2 ⟨s, hs, hprint⟩] at hnew
      cases hnew
    have hnot : next ∉ states := fun hmem => hfresh next hmem rfl
    refine ⟨states.cons next hnot, ?_, (Finset.forall_mem_cons hnot _).2 ⟨hnext, hreach⟩, ?_,
      fun print => ?_⟩
    · rw [Finset.card_cons, hcard]
      rfl
    · rw [Finset.coe_cons, Set.injOn_insert hnot]
      exact ⟨hinjective, fun ⟨s, hs, hprint⟩ => hfresh s hs hprint⟩
    · rw [Memory.contains_enter, hvisited]
      simp

theorem tryEach {below : SearchState → Memory → Verdict × Memory} {is : List Nat}
    (hbelow : ∀ next mem, p.Reachable current next → p.Honest current mem →
      p.Honest current (below next mem).2)
    (h : p.Honest current mem) (hs : p.Reachable current s) (his : ∀ i ∈ is, i ∈ s.remaining) :
    p.Honest current (p.tryEach below s is mem).2 := by
  induction is generalizing mem with
  | nil => exact h
  | cons i is ih =>
    obtain ⟨hi, his⟩ := List.forall_mem_cons.1 his
    have hnoted := h.noted hs hi
    obtain ⟨heq, -⟩ | ⟨next, _, hnext, hnew, rfl, hentered⟩ := p.tryEach_outcomes below s i is mem
    · rw [heq]
      exact ih hnoted his
    · have hreach : p.Reachable current next := .step hs hi hnext
      have hafter := hbelow next _ hreach (hnoted.enter hreach hnew)
      obtain ⟨-, heq⟩ | ⟨-, ⟨order, mem₁, hresult, heq⟩ | ⟨mem₁, hresult, heq⟩ | ⟨mem₁, hresult, heq⟩⟩ :=
        hentered <;> rw [heq]
      · exact hnoted.enter hreach hnew
      all_goals rw [hresult] at hafter
      · exact hafter
      · exact ih hafter his
      · exact hafter

theorem searchFrom (h : p.Honest current mem) (hs : p.Reachable current s) :
    p.Honest current (p.searchFrom n s mem).2 := by
  induction n generalizing s mem with
  | zero => exact h
  | succ n ih => exact h.tryEach (fun next mem hnext hmem => ih hmem hnext) hs fun i hi => hi

end Honest

/-- What a search has seen is there, however it ends. -/
theorem honest_search {verdict : Verdict} (h : p.search current = (verdict, mem)) : p.Honest current mem := by
  have hhonest : p.Honest current (p.search current).2 := Honest.start.searchFrom .start
  rwa [h] at hhonest

/-! ## Errors -/

/-- A move finds what it expects in no state in which it is left. -/
def NeverHolds (p : Problem) (current : Value) (i : Nat) : Prop :=
  i < p.moves.length ∧ ¬ p.Answers current i (.ok ())

/-- The states that a search can get to from the first one, equal ones as one. -/
def otherStates (p : Problem) (current : Value) : Set (Quotient SearchState.setoid) :=
  {c | (∃ s, p.Reachable current s ∧ ⟦s⟧ = c) ∧ c ≠ ⟦⟨current, preferenceOrder p.moves⟩⟧}

/-- What the error of a search tells was seen: a fault is one that a move gave, and either all moves before it
have found what they expect, or all moves have, and the states that it counts are there. -/
def TellsSeen (p : Problem) (current : Value) (e : UpdateError) : Prop :=
  (∃ i m fault, p.moves[i]? = some m ∧ (∀ j < i, p.Answers current j (.ok ())) ∧
      (p.search current).2.faults.get? i = some fault ∧ p.Answers current i (.error fault) ∧
      e = .pathResolution (some i) m.path.text fault) ∨
    ((∀ i < p.moves.length, p.Answers current i (.ok ())) ∧
      ∃ reason count, e = .structural reason count ∧ count ≤ (p.otherStates current).encard)

/-- What the error of a search tells is all there is to tell: if some moves never find what they expect, then
it is about the first of them, with a fault that this move gave. Otherwise it counts the states. -/
def TellsAll (p : Problem) (current : Value) (e : UpdateError) : Prop :=
  ((∃ i, p.NeverHolds current i) →
      ∃ i m fault, p.moves[i]? = some m ∧ p.NeverHolds current i ∧ (∀ j < i, ¬ p.NeverHolds current j) ∧
        (p.search current).2.faults.get? i = some fault ∧ p.Answers current i (.error fault) ∧
        e = .pathResolution (some i) m.path.text fault) ∧
    ((¬ ∃ i, p.NeverHolds current i) →
      ∃ reason count, e = .structural reason count ∧ (p.otherStates current).encard = count)

/-- An error tells of the first move that is not known to have found what it expects, or there is none. -/
theorem failure_cases (p : Problem) (mem : Memory) :
    (∃ i m, p.moves[i]? = some m ∧ i ∉ mem.held ∧ (∀ j < i, j ∈ mem.held) ∧
        p.failure mem = .pathResolution (some i) m.path.text
          ((mem.faults.get? i).getD (.alreadyPresent m.path.text))) ∨
      ((∀ i < p.moves.length, i ∈ mem.held) ∧ p.failure mem
        = .structural ((mem.rejection.map (·.reason)).getD "no ordering applies every move") mem.explored) := by
  unfold failure
  split
  · rename_i m i hfind
    obtain ⟨hi, k, hk, hget, hbefore⟩ := List.find?_eq_some_iff_getElem.1 hfind
    rw [List.getElem_zipIdx, Nat.zero_add] at hget
    obtain ⟨rfl, rfl⟩ := Prod.mk.inj hget
    rw [List.length_zipIdx] at hk
    refine .inl ⟨k, _, List.getElem?_eq_getElem hk, by simpa using hi, fun j hj => ?_, rfl⟩
    simpa using hbefore j hj
  · rename_i hnone
    refine .inr ⟨fun i hi => ?_, rfl⟩
    have hmem : (p.moves[i], i) ∈ p.moves.zipIdx := List.mem_zipIdx_iff_getElem?.2 (by simp [hi])
    simpa using List.find?_eq_none.1 hnone _ hmem

/-- A search that fails and is not cut off comes back with the error that its memory gives. -/
theorem deadEnd_of_sort {e : UpdateError} (hbudget : (p.search current).1 ≠ .outOfBudget)
    (h : p.sort current = .error e) :
    ∃ mem, p.search current = (.deadEnd, mem) ∧ e = p.failure mem := by
  rw [sort_eq] at h
  generalize p.search current = result at h hbudget ⊢
  obtain ⟨verdict, mem⟩ := result
  cases verdict with
  | outOfBudget => exact absurd rfl hbudget
  | found order => cases h
  | deadEnd => exact ⟨mem, rfl, (Except.error.inj h).symm⟩

/-- A move that finds what it expects in the first tree is known to have done so, also where states have been
taken for others. -/
theorem held_of_deadEnd (h : p.search current = (.deadEnd, mem)) {m : Move} (hm : p.moves[i]? = some m)
    (hc : m.check current = .ok ()) : i ∈ mem.held := by
  have hlt : i < p.moves.length := (List.getElem?_eq_some_iff.1 hm).1
  exact ((explored_of_deadEnd h).2.1 i (mem_preferenceOrder_iff.2 hlt)).held m hm hc

/-- A move that is not known to have found what it expects has told what it has found instead, since it was
tried in the first state. -/
theorem exists_fault (h : p.search current = (.deadEnd, mem)) {m : Move} (hm : p.moves[i]? = some m)
    (hi : i ∉ mem.held) :
    ∃ fault, mem.faults.get? i = some fault ∧ p.Answers current i (.error fault) := by
  have hlt : i < p.moves.length := (List.getElem?_eq_some_iff.1 hm).1
  have htried := (explored_of_deadEnd h).2.1 i (mem_preferenceOrder_iff.2 hlt)
  cases hc : m.check current with
  | ok u => exact absurd (held_of_deadEnd h hm hc) hi
  | error e =>
    obtain ⟨fault, hfault⟩ := Option.isSome_iff_exists.1 (htried.faulted m e hm hc)
    exact ⟨fault, hfault, ((honest_search h).faults i fault hfault).resolve_left hi⟩

/-- The error of a search that comes back is about the first move that is not known to have found what it
expects, with a fault of this move, or there is none. -/
theorem failure_of_deadEnd (h : p.search current = (.deadEnd, mem)) :
    (∃ i m fault, p.moves[i]? = some m ∧ i ∉ mem.held ∧ (∀ j < i, j ∈ mem.held) ∧
        (p.search current).2.faults.get? i = some fault ∧ p.Answers current i (.error fault) ∧
        p.failure mem = .pathResolution (some i) m.path.text fault) ∨
      ((∀ i < p.moves.length, i ∈ mem.held) ∧
        ∃ reason, p.failure mem = .structural reason mem.explored) := by
  obtain ⟨i, m, hm, hi, hbefore, hfailure⟩ | ⟨hall, hfailure⟩ := p.failure_cases mem
  · obtain ⟨fault, hfault, hanswer⟩ := exists_fault h hm hi
    rw [hfault, Option.getD_some] at hfailure
    exact .inl ⟨i, m, fault, hm, hi, hbefore, h ▸ hfault, hanswer, hfailure⟩
  · exact .inr ⟨hall, _, hfailure⟩

/-- The states that a search has entered after the first one are different up to equality. -/
theorem exists_entered (hrespects : p.fingerprint.Respects) (h : p.Honest current mem)
    (hstart : mem.visited.contains (p.fingerprint ⟨current, preferenceOrder p.moves⟩) = true) :
    ∃ classes ⊆ p.otherStates current, classes.encard = mem.explored ∧
      ∀ s, p.Reachable current s → mem.visited.contains (p.fingerprint s) = true →
        p.CollisionFree current → ⟦s⟧ ∈ classes ∨
          (⟦s⟧ : Quotient SearchState.setoid) = ⟦⟨current, preferenceOrder p.moves⟩⟧ := by
  classical
  obtain ⟨states, hcard, hreach, hinjective, hvisited⟩ := h.entered
  obtain ⟨first, hfirst, hprint⟩ := (hvisited _).1 hstart
  have hclasses : Set.InjOn (Quotient.mk SearchState.setoid) (states.erase first) := by
    intro s hs t ht heq
    exact hinjective (Finset.mem_of_mem_erase hs) (Finset.mem_of_mem_erase ht)
      (hrespects s t (Quotient.exact heq))
  refine ⟨Quotient.mk SearchState.setoid '' (states.erase first), ?_, ?_, ?_⟩
  · rintro _ ⟨s, hs, rfl⟩
    obtain ⟨hne, hs⟩ := Finset.mem_erase.1 hs
    refine ⟨⟨s, hreach s hs, rfl⟩, fun heq => hne (hinjective hs hfirst ?_)⟩
    rw [hprint, hrespects _ _ (Quotient.exact heq)]
  · rw [hclasses.encard_image, Set.encard_coe_eq_coe_finsetCard, Finset.card_erase_of_mem hfirst, hcard]
    rfl
  · intro s hs hseen hfree
    obtain ⟨t, ht, htprint⟩ := (hvisited _).1 hseen
    have hsame : (⟦t⟧ : Quotient SearchState.setoid) = ⟦s⟧ :=
      Quotient.sound (hfree t s (hreach t ht) hs htprint)
    by_cases heq : t = first
    · subst heq
      exact .inr (hsame ▸ Quotient.sound (hfree t _ (hreach t ht) .start hprint))
    · exact .inl ⟨t, Finset.mem_coe.2 (Finset.mem_erase.2 ⟨heq, ht⟩), hsame⟩

theorem tellsSeen_failure (hrespects : p.fingerprint.Respects)
    (h : p.search current = (.deadEnd, mem)) : p.TellsSeen current (p.failure mem) := by
  have hhonest := honest_search h
  obtain ⟨i, m, fault, hm, -, hbefore, htells⟩ | ⟨hall, reason, hfailure⟩ := failure_of_deadEnd h
  · exact .inl ⟨i, m, fault, hm, fun j hj => hhonest.held j (hbefore j hj), htells⟩
  · obtain ⟨classes, hsub, hcount, -⟩ := exists_entered hrespects hhonest (explored_of_deadEnd h).1
    exact .inr ⟨fun i hi => hhonest.held i (hall i hi), reason, _, hfailure,
      hcount ▸ Set.encard_le_encard hsub⟩

section Agreement

variable (hrespects : p.fingerprint.Respects) (hfree : p.CollisionFree current)
variable (hagree : p.EqualStatesAgree current)

include hrespects hfree hagree

/-- A search that comes back holds of every move whether it finds what it expects somewhere. -/
theorem mem_held_iff (h : p.search current = (.deadEnd, mem)) :
    i ∈ mem.held ↔ p.Answers current i (.ok ()) := by
  constructor
  · exact (honest_search h).held i
  · rintro ⟨m, s, hm, hs, hi, hc⟩
    exact ((explored_of_reachable hrespects hfree hagree h hs).2 i hi).held m hm hc

/-- A search that comes back has entered every state once. -/
theorem encard_otherStates (h : p.search current = (.deadEnd, mem)) :
    (p.otherStates current).encard = mem.explored := by
  obtain ⟨classes, hsub, hcount, hknown⟩ :=
    exists_entered hrespects (honest_search h) (explored_of_deadEnd h).1
  rw [← hcount]
  refine congrArg Set.encard (Set.Subset.antisymm ?_ hsub)
  rintro c ⟨⟨s, hs, rfl⟩, hother⟩
  have hvisited := (explored_of_reachable hrespects hfree hagree h hs).1
  exact (hknown s hs hvisited hfree).resolve_right hother

theorem tellsAll_failure (h : p.search current = (.deadEnd, mem)) :
    p.TellsAll current (p.failure mem) := by
  have hheld : ∀ i < p.moves.length, i ∈ mem.held ↔ ¬ p.NeverHolds current i := by
    intro i hi
    simp [mem_held_iff hrespects hfree hagree h, NeverHolds, hi]
  obtain ⟨i, m, fault, hm, hi, hbefore, htells⟩ | ⟨hall, reason, hfailure⟩ := failure_of_deadEnd h
  · have hlt := (List.getElem?_eq_some_iff.1 hm).1
    have hnever : p.NeverHolds current i := not_not.1 (mt (hheld i hlt).2 hi)
    have hleast : ∀ j < i, ¬ p.NeverHolds current j := fun j hj =>
      (hheld j (hj.trans hlt)).1 (hbefore j hj)
    exact ⟨fun _ => ⟨i, m, fault, hm, hnever, hleast, htells⟩, fun hnone => absurd ⟨i, hnever⟩ hnone⟩
  · refine ⟨?_, fun _ => ⟨reason, _, hfailure, encard_otherStates hrespects hfree hagree h⟩⟩
    rintro ⟨i, hnever⟩
    exact absurd hnever ((hheld i hnever.1).1 (hall i hnever.1))

end Agreement

/-- The error of a search that is not cut off, if the same fingerprint means equal states, as it does with the
fingerprint in use but for collisions. It tells nothing that was not seen, and all there is if equal states
allow the same moves. -/
theorem sort_failure :
    SearchState.fingerprint.Respects ∧
      ∀ (p : Problem) (current : Value) (e : UpdateError), p.fingerprint.Respects →
        p.CollisionFree current → (p.search current).1 ≠ .outOfBudget → p.sort current = .error e →
          p.TellsSeen current e ∧ (p.EqualStatesAgree current → p.TellsAll current e) := by
  refine ⟨SearchState.respects_fingerprint, ?_⟩
  intro p current e hrespects hfree hbudget h
  obtain ⟨mem, hsearch, rfl⟩ := deadEnd_of_sort hbudget h
  exact ⟨tellsSeen_failure hrespects hsearch, fun hagree => tellsAll_failure hrespects hfree hagree hsearch⟩

/-! ## A member that is not there -/

/-- The addition of a VLAN, and the removal of a member that the VLAN does not have. -/
def absentMember : Problem where
  oracle := ReferenceRules.switch.oracle
  moves := [addVlan, dropMember]
  budget := 1
  fingerprint s := mask s.remaining

/-- The configuration after the addition. -/
def loneVlan : Value := .object [("VLAN", .object [("Vlan10", .empty)]), ("VLAN_MEMBER", .empty)]

/-- What the removal finds, before the addition and after it. -/
def noMember : PreconditionError :=
  .unresolvable (.keyNotFound "/VLAN_MEMBER" "Vlan10|Ethernet0")

theorem preferenceOrder_absentMember : preferenceOrder absentMember.moves = [0, 1] := by
  cbv

theorem next_addVlan : absentMember.next? ⟨noVlans, [0, 1]⟩ 0 = some ⟨loneVlan, [1]⟩ := rfl

theorem check_dropMember :
    dropMember.check noVlans = .error noMember ∧ dropMember.check loneVlan = .error noMember :=
  ⟨rfl, rfl⟩

theorem reachable_absentMember (h : absentMember.Reachable noVlans s) :
    s = ⟨noVlans, [0, 1]⟩ ∨ s = ⟨loneVlan, [1]⟩ := by
  have hstays : ∀ s, s.tree = noVlans ∨ s.tree = loneVlan → absentMember.next? s 1 = none := by
    intro s hs
    obtain ⟨e, hc⟩ : ∃ e, dropMember.check s.tree = .error e := by
      rcases hs with hs | hs <;> rw [hs]
      exacts [⟨_, check_dropMember.1⟩, ⟨_, check_dropMember.2⟩]
    simp [next?, absentMember, Move.step_of_check_error hc]
  induction h with
  | start =>
    rw [preferenceOrder_absentMember]
    exact .inl rfl
  | @step s next i _ hi hnext ih =>
    obtain rfl | rfl := ih
    · obtain rfl | rfl : i = 0 ∨ i = 1 := by simpa using hi
      · rw [next_addVlan] at hnext
        exact .inr (Option.some.inj hnext).symm
      · rw [hstays _ (.inl rfl)] at hnext
        cases hnext
    · obtain rfl : i = 1 := by simpa using hi
      rw [hstays _ (.inr rfl)] at hnext
      cases hnext

theorem neverHolds_absentMember : absentMember.NeverHolds noVlans 1 := by
  refine ⟨by decide, ?_⟩
  rintro ⟨m, s, hm, hs, -, hc⟩
  obtain rfl : dropMember = m := Option.some.inj hm
  obtain rfl | rfl := reachable_absentMember hs
  · rw [check_dropMember.1] at hc
    cases hc
  · rw [check_dropMember.2] at hc
    cases hc

theorem search_absentMember : (absentMember.search noVlans).1 = .deadEnd := by
  obtain ⟨hcheck, hcheck'⟩ := check_dropMember
  have horder := preferenceOrder_absentMember
  have hadd : addVlan.check noVlans = .ok () := rfl
  have hrun : addVlan.run noVlans = .ok loneVlan := rfl
  have haccepted : ReferenceRules.switch.oracle loneVlan = .ok () := rfl
  have hall : mask [0, 1] = 3 := by decide
  have hrest : mask [1] = 2 := by decide
  simp only [absentMember] at horder
  simp [search, searchFrom, tryEach, absentMember, horder, hcheck, hcheck', hadd, hrun, haccepted, Memory.start,
    Memory.hold, Memory.fail, Memory.enter, hall, hrest]

/-- The error tells that there is no such member, as the removal does in both states. -/
theorem sort_failure_absentMember :
    absentMember.fingerprint.Respects ∧ absentMember.CollisionFree noVlans ∧
      (absentMember.search noVlans).1 ≠ .outOfBudget ∧ absentMember.EqualStatesAgree noVlans ∧
      (∃ i, absentMember.NeverHolds noVlans i) ∧
      ∃ e, absentMember.sort noVlans = .error e ∧ absentMember.TellsAll noVlans e := by
  have hrespects : absentMember.fingerprint.Respects := fun s s' h => congrArg mask h.2
  have hprints : absentMember.fingerprint ⟨noVlans, [0, 1]⟩ ≠ absentMember.fingerprint ⟨loneVlan, [1]⟩ := by
    decide
  have hdistinct : ∀ s s', absentMember.Reachable noVlans s → absentMember.Reachable noVlans s' →
      absentMember.fingerprint s = absentMember.fingerprint s' → s = s' := by
    intro s s' hs hs' hprint
    obtain rfl | rfl := reachable_absentMember hs <;> obtain rfl | rfl := reachable_absentMember hs'
    · rfl
    · exact absurd hprint hprints
    · exact absurd hprint.symm hprints
    · rfl
  have hfree : absentMember.CollisionFree noVlans := by
    intro s s' hs hs' hprint
    obtain rfl := hdistinct s s' hs hs' hprint
    exact ⟨Value.same_refl _, rfl⟩
  have hagree : absentMember.EqualStatesAgree noVlans := by
    intro s s' hs hs' h i _
    rw [hdistinct s s' hs hs' (hrespects s s' h)]
  have hbudget : (absentMember.search noVlans).1 ≠ .outOfBudget := by
    rw [search_absentMember]
    decide
  have hsort := sort_of_deadEnd search_absentMember
  exact ⟨hrespects, hfree, hbudget, hagree, ⟨1, neverHolds_absentMember⟩, _, hsort,
    (sort_failure.2 absentMember noVlans _ hrespects hfree hbudget hsort).2 hagree⟩

/-! ## A state that the search takes for another one -/

theorem not_neverHolds_twoZeros (profiles : Value) :
    ¬ ∃ i, (twoZeros profiles).NeverHolds (zeroTree true true bothProfiles) i := by
  have hstart : (twoZeros profiles).Reachable (zeroTree true true bothProfiles)
      ⟨zeroTree true true bothProfiles, [0, 1, 2, 3]⟩ := by
    rw [← preferenceOrder_twoZeros profiles]
    exact .start
  have hentries := Reachable.step hstart (show 1 ∈ [0, 1, 2, 3] by decide) (next?_eq_some_iff.2
    ⟨writeEntries, _, rfl, check_writeEntries _ _ _, run_writeEntries _ _ _, oracle_both _ _, rfl⟩)
  have hfirst := Reachable.step hentries (show 0 ∈ [0, 2, 3] by decide) (next?_eq_some_iff.2
    ⟨writeFirst, _, rfl, check_writeFirst _ _ _, run_writeFirst _ _ _, oracle_both _ _, rfl⟩)
  have hremoved := Reachable.step hfirst (show 2 ∈ [2, 3] by decide) (next?_eq_some_iff.2
    ⟨removeNegative, _, rfl, check_removeNegative _ _, run_removeNegative _ _, oracle_positive, rfl⟩)
  rintro ⟨i, hi, hnever⟩
  match i with
  | 0 => exact hnever ⟨writeFirst, _, rfl, hstart, by decide, check_writeFirst _ _ _⟩
  | 1 => exact hnever ⟨writeEntries, _, rfl, hstart, by decide, check_writeEntries _ _ _⟩
  | 2 => exact hnever ⟨removeNegative, _, rfl, hstart, by decide, check_removeNegative _ _⟩
  | 3 => exact hnever ⟨writeProfiles profiles, _, rfl, hremoved, by decide, check_writeProfiles _ _ _⟩

/-- The last move finds what it expects after the second, the first and the third one. The search does not see
that, since it takes the state after the first two for the equal one that it knows, and reports that the move
never finds what it expects. -/
theorem exists_hidden_state :
    ¬ ∀ (p : Problem) (current : Value) (e : UpdateError), p.fingerprint.Respects →
      p.CollisionFree current → (p.search current).1 ≠ .outOfBudget → p.sort current = .error e →
        p.TellsAll current e := by
  intro hall
  obtain ⟨hdead, hheld⟩ := search_twoZeros .empty
  have hsort := sort_of_deadEnd hdead
  obtain ⟨reason, count, hfailure, -⟩ := (hall (twoZeros .empty) (zeroTree true true bothProfiles) _
    (fun s s' h => congrArg mask h.2) (collisionFree_twoZeros _) (by rw [hdead]; decide) hsort).2
    (not_neverHolds_twoZeros _)
  obtain ⟨i, m, -, -, -, hother⟩ | ⟨hknown, -⟩ :=
    failure_cases (twoZeros .empty) ((twoZeros .empty).search (zeroTree true true bothProfiles)).2
  · rw [hother] at hfailure
    cases hfailure
  · exact hheld (hknown 3 (by decide))

end Problem

end ConfigUpdate
