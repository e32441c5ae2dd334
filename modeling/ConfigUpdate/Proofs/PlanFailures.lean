import ConfigUpdate.Proofs.Replacement
import ConfigUpdate.Proofs.SearchFailure

/-!
# How a plan for a scope can fail

A plan fails because the gate refuses an edit or cannot read what a device publishes, because the oracle
refuses the target, or because the search finds no order (`Updater.FailsFor`). Every move of a difference finds
what it expects in the current tree, so the search never says that a move leads nowhere
(`Problem.sort_error_of_holds`); and every order of a difference leads to the target, so the replay at the end
never fails (`Updater.checkReplay_of_perm`).
-/

namespace ConfigUpdate

section Errors

variable {ε α β : Type} {e : ε}

theorem bind_eq_error_iff {x : Except ε α} {f : α → Except ε β} :
    (x >>= f) = .error e ↔ x = .error e ∨ ∃ a, x = .ok a ∧ f a = .error e := by
  cases x <;> simp [bind, Except.bind]

theorem exists_error_of_forM {f : α → Except ε Unit} {l : List α} (h : l.forM f = .error e) :
    ∃ a ∈ l, f a = .error e := by
  induction l with
  | nil => cases h
  | cons a l ih =>
    rcases bind_eq_error_iff.1 h with hfirst | ⟨-, -, hrest⟩
    · exact ⟨a, List.mem_cons_self, hfirst⟩
    · obtain ⟨b, hb, hrefused⟩ := ih hrest
      exact ⟨b, List.mem_cons_of_mem a hb, hrefused⟩

end Errors

/-! ## The gate -/

/-- What the gate says when it does not let an edit pass. -/
inductive Gate.Refusal : UpdateError → Prop
  | illegal (table field rule reason : String) : Refusal (.illegalOperation table field rule reason)
  | unreadable (cause : StoreError) : Refusal (.store cause)

section Refusals

variable {e : Edit} {t : FieldTouch} {scope : Scope} {failure : UpdateError}

theorem PortCheck.refusal_of_checkField {chassis : Bool} {state : DeviceState}
    (h : PortCheck.checkField chassis state scope e t = .error failure) : Gate.Refusal failure := by
  have hpublished : ∀ field, PortCheck.published state scope t.key field = .error failure →
      Gate.Refusal failure := by
    intro field hfield
    unfold PortCheck.published at hfield
    split at hfield <;> cases hfield
    exact .unreadable _
  have hrefused : ∀ field fault, PortCheck.refuseFor e t.key field fault = .error failure →
      Gate.Refusal failure := by
    intro field fault hfault
    cases fault <;> cases hfault
    exact .illegal _ _ _ _
  unfold PortCheck.checkField at h
  split at h
  · cases h
  · dsimp only at h
    split at h
    · split at h
      · cases h
      · rcases bind_eq_error_iff.1 h with hread | ⟨list, -, hfault⟩
        · exact hpublished _ hread
        · exact hrefused _ _ hfault
    · rcases bind_eq_error_iff.1 h with hread | ⟨list, -, hfault⟩
      · exact hpublished _ hread
      · exact hrefused _ _ hfault
    · cases h

theorem PortCheck.refusal_of_check {chassis : Bool} {state : DeviceState}
    (h : PortCheck.check chassis state scope e = .error failure) : Gate.Refusal failure := by
  unfold PortCheck.check at h
  split at h
  · cases h
  · obtain ⟨touch, -, htouch⟩ := exists_error_of_forM h
    exact refusal_of_checkField htouch

theorem TrafficCheck.refusal_of_check {platform : Platform} {book : RuleBook}
    (h : TrafficCheck.check platform book e = .error failure) : Gate.Refusal failure := by
  unfold TrafficCheck.check at h
  split at h
  · cases h
  · dsimp only at h
    split at h
    · cases h
      exact .illegal _ _ _ _
    · split at h
      · cases h
        exact .illegal _ _ _ _
      · obtain ⟨touch, -, htouch⟩ := exists_error_of_forM h
        unfold TrafficCheck.checkField at htouch
        dsimp only at htouch
        split at htouch <;> cases htouch
        exact .illegal _ _ _ _

theorem TrafficCheck.refusal_of_checkProfile {platform : Platform} {book : RuleBook}
    (h : TrafficCheck.checkProfile platform book e = .error failure) : Gate.Refusal failure := by
  unfold TrafficCheck.checkProfile at h
  split at h
  · exact refusal_of_check h
  · split at h <;> cases h
    exact .illegal _ _ _ _

namespace Gate

variable {g : Gate}

theorem refusal_of_checkBelowRoot (h : g.checkBelowRoot scope e = .error failure) : Refusal failure := by
  rcases bind_eq_error_iff.1 h with hprotected | ⟨-, -, hchecks⟩
  · unfold checkProtected at hprotected
    split at hprotected
    · split at hprotected <;> cases hprotected
      exact .illegal _ _ _ _
    · cases hprotected
  · obtain ⟨check, -, hcheck⟩ := exists_error_of_forM hchecks
    cases check with
    | port => exact PortCheck.refusal_of_check hcheck
    | traffic => exact TrafficCheck.refusal_of_check hcheck
    | bufferProfile => exact TrafficCheck.refusal_of_checkProfile hcheck

theorem refusal_of_check (h : g.check scope e = .error failure) : Refusal failure := by
  unfold check at h
  split at h
  · obtain ⟨edit, -, hedit⟩ := exists_error_of_forM h
    exact refusal_of_checkBelowRoot hedit
  · exact refusal_of_checkBelowRoot h

theorem refusal_of_checkMoves {moves : List Move} (h : g.checkMoves scope moves = .error failure) :
    Refusal failure := by
  obtain ⟨m, -, hm⟩ := exists_error_of_forM h
  exact refusal_of_check hm

theorem refusal_of_checkOperations {ops : List Operation}
    (h : g.checkOperations scope ops = .error failure) : Refusal failure := by
  obtain ⟨op, -, hop⟩ := exists_error_of_forM h
  exact refusal_of_check hop

end Gate

end Refusals

/-! ## The search -/

namespace Problem

variable {p : Problem} {current : Value}

/-- What the search says when it gives up: that there are too many states, that the oracle has refused a tree,
or, if it has refused none, that there is no order. -/
inductive GivesUp (p : Problem) : String → Prop
  | overBudget : GivesUp p ("node budget of " ++ toString p.budget ++ " exhausted")
  | refused {tree : Value} {r : Rejection} : p.oracle tree = .error r → GivesUp p r.reason
  | noOrder : GivesUp p "no ordering applies every move"

/-- If every move finds what it expects in the first tree, a search that fails says why it has given up, and
never that a move leads nowhere. -/
theorem sort_error_of_holds (hholds : ∀ m ∈ p.moves, m.check current = .ok ()) {e : UpdateError}
    (h : p.sort current = .error e) : ∃ reason count, e = .structural reason count ∧ p.GivesUp reason := by
  rw [sort_eq] at h
  rcases hsearch : p.search current with ⟨verdict, mem⟩
  rw [hsearch] at h
  cases verdict with
  | found order => cases h
  | outOfBudget =>
    cases h
    exact ⟨_, _, rfl, .overBudget⟩
  | deadEnd =>
    obtain rfl : p.failure mem = e := Except.error.inj h
    obtain ⟨i, m, hm, hi, -⟩ | ⟨-, hfailure⟩ := p.failure_cases mem
    · exact absurd (held_of_deadEnd hsearch hm (hholds m (List.mem_of_getElem? hm))) hi
    · rw [hfailure]
      refine ⟨_, _, rfl, ?_⟩
      cases hrejection : mem.rejection with
      | none => exact .noOrder
      | some r =>
        obtain ⟨tree, hrefused⟩ := (honest_search hsearch).refused r hrejection
        exact .refused hrefused

end Problem

/-! ## The replay -/

section Difference

variable {current target : Value} (hc : current.WellFormed) (ht : target.WellFormed)

include hc ht

/-- Every move of a difference finds what it expects in the current tree. -/
theorem check_of_mem_diff {m : Move} (hm : m ∈ diff current target) : m.check current = .ok () := by
  have hstep : m.step (Value.blend (fun _ => false) current target)
      = .ok (Value.blend (withPlace (fun _ => false) m.path) current target) := step_blend hc ht hm rfl
  rw [Value.blend_none hc] at hstep
  exact (Move.step_eq_ok_iff.1 hstep).1

/-- An order of a difference is a run to a tree that is equal to the target. -/
theorem run_of_perm_diff {order : List Move} (h : order.Perm (diff current target)) :
    Move.Run Oracle.acceptAll current order (current.settled target) := by
  have hnodup : (order.map (·.path)).Nodup := ((h.map _).nodup_iff).2 (nodup_places_diff hc ht)
  have hrun := run_blend hc ht (fun m hm => h.mem_iff.1 hm) hnodup
  have hall : Value.blend (placesBut []) current target = current.settled target :=
    blend_congr hc ht fun m _ => by simp [placesBut]
  rwa [blend_placesBut_diff hc ht h, hall] at hrun

theorem Updater.checkReplay_of_perm {order : List Move} (h : order.Perm (diff current target)) :
    checkReplay current target order = .ok () := by
  have hreplay := Move.runAll_eq_ok_iff.2 (run_of_perm_diff hc ht h)
  have hsame : (current.settled target == target) = true := Value.same_settled hc ht
  unfold checkReplay
  rw [hreplay]
  exact if_pos hsame

end Difference

/-! ## Plans -/

namespace Updater

/-- The search for an order of the difference between two trees. -/
def problem (u : Updater) (current target : Value) : Problem :=
  ⟨u.oracle, diff current target, u.budget, u.fingerprint⟩

/-- The reason of a replay that leads elsewhere. -/
def elsewhere : String := "sorted plan does not reproduce the target configuration"

/-- Why there is no plan for a target. -/
inductive FailsFor (u : Updater) (current target : Value) : UpdateError → Prop
  | gate {e : UpdateError} : Gate.Refusal e → FailsFor u current target e
  | target {r : Rejection} : u.oracle target = .error r →
    FailsFor u current target (.structural ("target configuration is invalid: " ++ r.reason) 0)
  | search {reason : String} {count : Nat} :
    (u.problem current target).sort current = .error (.structural reason count) →
      (u.problem current target).GivesUp reason → FailsFor u current target (.structural reason count)

variable {u : Updater} {scope : Scope} {current target : Value} {literal : List Operation} {e : UpdateError}

theorem perm_of_sort_problem {sorted : List Move} (h : (u.problem current target).sort current = .ok sorted) :
    sorted.Perm (diff current target) := by
  obtain ⟨order, hperm, rfl, -⟩ := Problem.order_of_sort h
  exact Problem.perm_of_positions hperm

theorem failsFor_of_planScope (hc : current.WellFormed) (ht : target.WellFormed)
    (h : u.planScope scope current target literal = .error e) : u.FailsFor current target e := by
  rcases bind_eq_error_iff.1 h with hgate | ⟨-, -, h⟩
  · exact .gate (Gate.refusal_of_checkOperations hgate)
  dsimp only at h
  split at h
  · cases h
  rcases bind_eq_error_iff.1 h with hgate | ⟨-, -, h⟩
  · exact .gate (Gate.refusal_of_checkMoves hgate)
  split at h
  · rename_i r hrefused
    cases h
    exact .target hrefused
  rcases bind_eq_error_iff.1 h with hsort | ⟨sorted, hsort, h⟩
  · have hholds : ∀ m ∈ (u.problem current target).moves, m.check current = .ok () :=
      fun m hm => check_of_mem_diff hc ht hm
    obtain ⟨reason, count, rfl, hreason⟩ := Problem.sort_error_of_holds hholds hsort
    exact .search hsort hreason
  · -- The search has found an order, so only the replay is left to fail.
    have hreplay := checkReplay_of_perm hc ht (perm_of_sort_problem hsort)
    rw [hreplay] at h
    cases h

/-- The reason of a replay is none that the search makes up itself. -/
theorem exists_rejection_of_givesUp {p : Problem} (h : p.GivesUp elsewhere) :
    ∃ tree r, p.oracle tree = .error r ∧ r.reason = elsewhere := by
  generalize hreason : elsewhere = reason at h
  cases h with
  | overBudget =>
    have hhead := congrArg (fun s : String => s.toList.head?) hreason
    simp [elsewhere] at hhead
  | refused hrefused => exact ⟨_, _, hrefused, rfl⟩
  | noOrder => exact absurd hreason (by decide)

/-- Planning for a scope fails honestly. The replay of what the search has found always succeeds, and no failure
says that a move leads nowhere. A failure reads like that of a replay that leads elsewhere only if it is one of
the search, which repeats what the oracle has said about a tree. -/
theorem planScope_failures (u : Updater) (scope : Scope) (current target : Value) (literal : List Operation)
    (hc : current.WellFormed) (ht : target.WellFormed) :
    (∀ sorted, (u.problem current target).sort current = .ok sorted →
        checkReplay current target sorted = .ok ()) ∧
      (∀ index path cause,
        u.planScope scope current target literal ≠ .error (.pathResolution index path cause)) ∧
      ∀ count, u.planScope scope current target literal = .error (.structural elsewhere count) →
        (u.problem current target).sort current = .error (.structural elsewhere count) ∧
          ∃ tree r, u.oracle tree = .error r ∧ r.reason = elsewhere := by
  refine ⟨fun sorted hsort => checkReplay_of_perm hc ht (perm_of_sort_problem hsort), ?_, ?_⟩
  · intro index path cause h
    cases failsFor_of_planScope hc ht h with
    | gate hrefusal => cases hrefusal
  · intro count h
    generalize hreason : elsewhere = reason at h
    cases failsFor_of_planScope hc ht h with
    | gate hrefusal => cases hrefusal
    | target hrefused =>
      have hhead := congrArg (fun s : String => s.toList.head?) hreason
      simp [elsewhere] at hhead
    | search hsort hgivesUp =>
      subst hreason
      exact ⟨hsort, exists_rejection_of_givesUp hgivesUp⟩

/-! ## A zero that is written in another way -/

/-- Settings of a buffer, with a zero and a limit. -/
def limitedBuffer : Value :=
  .object [("BUFFER", .object [("limit", .ofString "9100"),
    ("offset", .scalar (.number (.double (.zero false))))])]

/-- The settings without the limit, with the other zero. -/
def openBuffer : Value :=
  .object [("BUFFER", .object [("offset", .scalar (.number (.double (.zero true))))])]

/-- The removal of the limit. -/
def dropLimit : Move :=
  .remove (.ofNames ["BUFFER", "limit"]) (.ofString "9100")

theorem sort_limitedBuffer :
    (chipUpdater.problem limitedBuffer openBuffer).sort limitedBuffer = .ok [dropLimit] := by
  have hdiff : (chipUpdater.problem limitedBuffer openBuffer).moves = [dropLimit] := rfl
  exact sort_single hdiff rfl rfl Nat.one_pos (by decide)

/-- The moves leave the zero as it is, and the tree in which they end passes for the target. -/
theorem planScope_failures_limitedBuffer :
    limitedBuffer.WellFormed ∧ openBuffer.WellFormed ∧
      (chipUpdater.problem limitedBuffer openBuffer).sort limitedBuffer = .ok [dropLimit] ∧
      checkReplay limitedBuffer openBuffer [dropLimit] = .ok () ∧
      ∀ index path cause, chipUpdater.planScope (.asic 0) limitedBuffer openBuffer []
        ≠ .error (.pathResolution index path cause) := by
  have hc : limitedBuffer.WellFormed := by decide
  have ht : openBuffer.WellFormed := by decide
  obtain ⟨hreplay, hpath, -⟩ := planScope_failures chipUpdater (.asic 0) limitedBuffer openBuffer [] hc ht
  exact ⟨hc, ht, sort_limitedBuffer, hreplay _ sort_limitedBuffer, hpath⟩

end Updater

end ConfigUpdate
