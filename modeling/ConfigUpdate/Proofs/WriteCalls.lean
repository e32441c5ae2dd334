import ConfigUpdate.Proofs.ScopePlans
import ConfigUpdate.Proofs.SingleWrites
import Mathlib.Logic.Function.Basic

/-!
# Updates over stores of any kind

An update reads configurations and calls for writes, and nothing else about its stores matters. So it is
described here over stores of any kind that may share their content (`Stores`). A switch with its databases is
one case: `Switch.runIn_stores`. Planning calls for no write, and making what has been planned fails in no other
way than by an interruption; hence every other error, and every dry run, leaves without a call
(`Request.calls_only_interrupted`).
-/

namespace ConfigUpdate

/-- The stores of the scopes, over a content that they may share. -/
abbrev Stores (σ : Type) := Scope → Option (Store σ)

/-- Whether the error interrupts the making of moves. -/
def UpdateError.isInterruption : UpdateError → Bool
  | concurrentModification .. | applyFailed .. => true
  | _ => false

/-- The store of a scope with a record of the writes that it is called for. -/
def Store.recorded {σ : Type} (store : Store σ) (scope : Scope) : Store (σ × List (Scope × Write)) where
  config c := store.config c.1
  write w c := ((store.write w c.1).1, (store.write w c.1).2, c.2 ++ [(scope, w)])

namespace Stores

variable {σ τ : Type} (stores : Stores σ)

/-- The configuration of a scope. -/
def config (c : σ) (scope : Scope) : Except UpdateError Value :=
  match stores scope with
  | none => .error (Switch.noDatabase scope)
  | some store => match store.config c with
    | .ok config => .ok config
    | .error e => .error (.store e)

/-- Makes the moves of a plan in a scope. -/
def apply (scope : Scope) (moves : List Move) (c : σ) : Except UpdateError CommitReport × σ :=
  match stores scope with
  | none => (.error (Switch.noDatabase scope), c)
  | some store => store.apply moves c

/-- Makes a plan: how many moves were made, or the failure. -/
def makePlan (u : Updater) (plan : ScopePlan) (c : σ) : Except UpdateError Nat × σ :=
  if u.dryRun || plan.moves.isEmpty then (.ok 0, c)
  else ((stores.apply plan.scope plan.moves c).1.map (·.committed),
    (stores.apply plan.scope plan.moves c).2)

/-- Makes plans scope by scope. -/
def execute (u : Updater) : List ScopePlan → σ → Except UpdateError (List ScopeReport) × σ
  | [], c => (.ok [], c)
  | plan :: plans, c =>
    match stores.makePlan u plan c with
    | (.error e, c) => (.error e, c)
    | (.ok committed, c) =>
      ((execute u plans c).1.map (plan.report committed :: ·), (execute u plans c).2)

/-- The stores with a record of the writes that they are called for. -/
def recorded : Stores (σ × List (Scope × Write)) := fun scope =>
  (stores scope).map (·.recorded scope)

end Stores

namespace Request

variable {σ : Type}

/-- Carries out the request in stores of any kind, with the checkpoints on a disk. -/
def runIn (u : Updater) (stores : Stores σ) (disk : Disk) (r : Request) (c : σ) :
    Except UpdateError UpdateReport × σ :=
  match r.plansFrom u disk (stores.config c) with
  | .error e => (.error e, c)
  | .ok plans => ((stores.execute u plans c).1.map fun scopes => ⟨u.dryRun, scopes⟩,
      (stores.execute u plans c).2)

/-- The writes that the request calls for, in order. -/
def calls (u : Updater) (stores : Stores σ) (disk : Disk) (r : Request) (c : σ) :
    List (Scope × Write) :=
  (r.runIn u stores.recorded disk (c, [])).2.2

end Request

/-! ## Stores in a larger content -/

namespace Stores

variable {σ τ : Type}

/-- The stores of all scopes do in a larger content what other ones do in theirs. -/
def Within (outer : Stores τ) (inner : Stores σ) (put : σ → τ) : Prop :=
  ∀ scope, (outer scope = none ∧ inner scope = none) ∨
    ∃ o i, outer scope = some o ∧ inner scope = some i ∧ Store.Within o i put

namespace Within

variable {outer : Stores τ} {inner : Stores σ} {put : σ → τ} (h : Within outer inner put)

include h

theorem config_eq (c : σ) : outer.config (put c) = inner.config c := by
  funext scope
  unfold config
  rcases h scope with ⟨ho, hi⟩ | ⟨o, i, ho, hi, hwithin⟩
  · rw [ho, hi]
  · rw [ho, hi]
    simp only [hwithin.config]

theorem apply_eq (scope : Scope) (moves : List Move) (c : σ) :
    outer.apply scope moves (put c)
      = ((inner.apply scope moves c).1, put (inner.apply scope moves c).2) := by
  unfold apply
  rcases h scope with ⟨ho, hi⟩ | ⟨o, i, ho, hi, hwithin⟩
  · rw [ho, hi]
  · rw [ho, hi]
    exact hwithin.apply_eq moves c

theorem makePlan_eq (u : Updater) (plan : ScopePlan) (c : σ) :
    outer.makePlan u plan (put c) = ((inner.makePlan u plan c).1, put (inner.makePlan u plan c).2) := by
  unfold makePlan
  by_cases hskip : (u.dryRun || plan.moves.isEmpty) = true
  · rw [if_pos hskip, if_pos hskip]
  · rw [if_neg hskip, if_neg hskip, h.apply_eq]

theorem execute_eq (u : Updater) (plans : List ScopePlan) (c : σ) :
    outer.execute u plans (put c) = ((inner.execute u plans c).1, put (inner.execute u plans c).2) := by
  induction plans generalizing c with
  | nil => rfl
  | cons plan plans ih =>
    unfold execute
    rw [h.makePlan_eq]
    rcases inner.makePlan u plan c with ⟨e | committed, c₁⟩
    · rfl
    · simp only [ih c₁]

/-- A request does in the larger content what it does in the other one. -/
theorem runIn_eq (u : Updater) (disk : Disk) (r : Request) (c : σ) :
    r.runIn u outer disk (put c) = ((r.runIn u inner disk c).1, put (r.runIn u inner disk c).2) := by
  unfold Request.runIn
  rw [h.config_eq]
  cases r.plansFrom u disk (inner.config c) with
  | error e => rfl
  | ok plans => simp only [h.execute_eq]

end Within

/-- The record changes nothing. -/
theorem within_recorded (stores : Stores σ) : Within stores stores.recorded Prod.fst := by
  intro scope
  cases hs : stores scope with
  | none => exact .inl ⟨rfl, by simp [recorded, hs]⟩
  | some store =>
    have hrecorded : stores.recorded scope = some (store.recorded scope) := by simp [recorded, hs]
    exact .inr ⟨store, store.recorded scope, rfl, hrecorded, fun _ => rfl, fun _ _ => rfl⟩

end Stores

/-! ## Switches -/

/-- The database of a scope as a store over the databases of all scopes and the disk. -/
def Database.storeAt (scope : Scope) : Store ((Scope → Database) × Disk) where
  config c := store.config (c.1 scope, c.2)
  write w c :=
    let after := store.write w (c.1 scope, c.2)
    (after.1, Function.update c.1 scope after.2.1, after.2.2)

namespace Switch

/-- The databases of the switch as stores. -/
def stores (s : Switch) : Stores ((Scope → Database) × Disk) := fun scope =>
  if Dictionary.contains s.databases scope then some (Database.storeAt scope) else none

/-- The databases of all scopes and the disk. -/
def content (s : Switch) : (Scope → Database) × Disk :=
  (fun scope => (Dictionary.get? s.databases scope).getD default, s.disk)

theorem within_storeAt (s : Switch) (scope : Scope) :
    Store.Within (Database.storeAt scope) Database.store
      fun d => (Function.update s.content.1 scope d.1, d.2) := by
  constructor
  · intro d
    simp [Database.storeAt]
  · intro w d
    simp [Database.storeAt]

theorem config_stores (s : Switch) : s.stores.config s.content = s.config := by
  funext scope
  cases hdb : Dictionary.get? s.databases scope with
  | none => simp [Stores.config, stores, Dictionary.contains, hdb, config]
  | some db =>
    have hstore : s.stores scope = some (Database.storeAt scope) := by
      simp [stores, Dictionary.contains, hdb]
    have hread : (Database.storeAt scope).config s.content = Database.store.config (db, s.disk) := by
      simp [Database.storeAt, content, hdb]
    unfold Stores.config config configOf
    rw [hstore, hdb]
    cases hconfig : Database.store.config (db, s.disk) <;> simp [hread, hconfig]

theorem apply_stores (s : Switch) (scope : Scope) (moves : List Move) :
    s.stores.apply scope moves s.content = ((s.apply scope moves).1, (s.apply scope moves).2.content) ∧
      (s.apply scope moves).2.stores = s.stores := by
  cases hdb : Dictionary.get? s.databases scope with
  | none => simp [Stores.apply, stores, Dictionary.contains, hdb, apply]
  | some db =>
    have hstore : s.stores scope = some (Database.storeAt scope) := by
      simp [stores, Dictionary.contains, hdb]
    have hput : s.content = (Function.update s.content.1 scope db, s.disk) := by
      simp [content, hdb]
    have hwithin := (within_storeAt s scope).apply_eq moves (db, s.disk)
    simp only [← hput] at hwithin
    unfold Stores.apply apply
    rw [hstore, hdb]
    simp only [hwithin]
    rcases Database.store.apply moves (db, s.disk) with ⟨outcome, db', disk'⟩
    constructor
    · have hcontent : content ⟨Dictionary.insert s.databases scope db', disk'⟩
          = (Function.update s.content.1 scope db', disk') := by
        unfold content
        congr 1
        funext scope'
        by_cases hscope : scope = scope'
        · subst hscope
          simp [Dictionary.get?_insert]
        · simp [Dictionary.get?_insert, hscope, Ne.symm hscope]
      rw [hcontent]
    · funext scope'
      have hcontains : Dictionary.contains (Dictionary.insert s.databases scope db') scope'
          = Dictionary.contains s.databases scope' := by
        by_cases hscope : scope = scope'
        · subst hscope
          simp [Dictionary.contains, Dictionary.get?_insert, hdb]
        · simp [Dictionary.contains, Dictionary.get?_insert, hscope]
      simp only [stores, hcontains]

theorem makePlan_stores (u : Updater) (plan : ScopePlan) (plans : List ScopePlan) (s : Switch) :
    ∃ outcome s', s.stores.makePlan u plan s.content = (outcome, s'.content) ∧ s'.stores = s.stores ∧
      u.execute (plan :: plans) s = match (outcome : Except UpdateError Nat) with
        | .error e => (.error e, s')
        | .ok committed =>
          ((u.execute plans s').1.map (plan.report committed :: ·), (u.execute plans s').2) := by
  unfold Stores.makePlan
  by_cases hskip : (u.dryRun || plan.moves.isEmpty) = true
  · refine ⟨.ok 0, s, by rw [if_pos hskip], rfl, ?_⟩
    simp only [Updater.execute, if_pos hskip]
  · obtain ⟨happly, hstores⟩ := s.apply_stores plan.scope plan.moves
    refine ⟨(s.apply plan.scope plan.moves).1.map (·.committed), (s.apply plan.scope plan.moves).2, ?_,
      hstores, ?_⟩
    · rw [if_neg hskip, happly]
    · simp only [Updater.execute, if_neg hskip]
      rcases s.apply plan.scope plan.moves with ⟨_ | _, s'⟩ <;> rfl

theorem execute_stores (u : Updater) (plans : List ScopePlan) (s : Switch) :
    s.stores.execute u plans s.content = ((u.execute plans s).1, (u.execute plans s).2.content) := by
  induction plans generalizing s with
  | nil => rfl
  | cons plan plans ih =>
    obtain ⟨outcome, s', hplan, hstores, hexecute⟩ := makePlan_stores u plan plans s
    have hrest := ih s'
    rw [hstores] at hrest
    rw [hexecute]
    unfold Stores.execute
    rw [hplan]
    cases outcome with
    | error e => rfl
    | ok committed => simp only [hrest]

/-- What a request does on a switch is what it does in the stores of the switch. -/
theorem runIn_stores (u : Updater) (r : Request) (s : Switch) :
    r.runIn u s.stores s.disk s.content = ((r.run u s).1, (r.run u s).2.content) := by
  rw [Request.run_eq, Request.plans_eq_plansFrom]
  unfold Request.runIn Updater.run
  rw [config_stores]
  cases r.plansFrom u s.disk s.config with
  | error e => rfl
  | ok plans => simp only [execute_stores]

end Switch

/-! ## Errors -/

theorem MoveFault.isInterruption_toError (fault : MoveFault) (index : Nat) (path : Pointer) :
    (fault.toError index path).isInterruption = true := by
  cases fault <;> rfl

theorem Store.isInterruption_of_makeMoves {σ : Type} (store : Store σ) {index : Nat} {moves : List Move}
    {s s' : σ} {e : UpdateError} (h : store.makeMoves index moves s = (.error e, s')) :
    e.isInterruption = true := by
  induction moves generalizing index s with
  | nil => cases h
  | cons m ms ih =>
    obtain ⟨fault, -, rfl⟩ | ⟨s₁, -, hrest⟩ := makeMoves_error_cases h
    · exact fault.isInterruption_toError index m.path
    · exact ih hrest

namespace Stores

variable {σ : Type} {stores : Stores σ} {u : Updater} {c c' : σ} {e : UpdateError}

/-- A plan for a scope that has a store fails in no other way than by an interruption. -/
theorem isInterruption_of_makePlan {plan : ScopePlan} {store : Store σ}
    (hstore : stores plan.scope = some store) (h : stores.makePlan u plan c = (.error e, c')) :
    e.isInterruption = true := by
  unfold makePlan at h
  split at h
  · cases h
  · unfold apply at h
    rw [hstore] at h
    rcases happly : store.apply plan.moves c with ⟨e' | report, c₁⟩
    · simp only [happly, Except.map, Prod.mk.injEq, Except.error.injEq] at h
      rw [← h.1]
      exact store.isInterruption_of_makeMoves (Store.apply_eq_error_iff.1 happly)
    · simp [happly, Except.map] at h

theorem isInterruption_of_execute {plans : List ScopePlan}
    (hstores : ∀ plan ∈ plans, ∃ store, stores plan.scope = some store)
    (h : stores.execute u plans c = (.error e, c')) : e.isInterruption = true := by
  induction plans generalizing c with
  | nil => cases h
  | cons plan plans ih =>
    obtain ⟨⟨store, hstore⟩, hstores⟩ := List.forall_mem_cons.1 hstores
    unfold execute at h
    rcases hplan : stores.makePlan u plan c with ⟨e' | committed, c₁⟩
    · rw [hplan] at h
      cases h
      exact isInterruption_of_makePlan hstore hplan
    · rw [hplan] at h
      rcases hrest : stores.execute u plans c₁ with ⟨e' | reports, c₂⟩
      · simp only [hrest, Except.map, Prod.mk.injEq, Except.error.injEq] at h
        obtain ⟨rfl, rfl⟩ := h
        exact ih hstores hrest
      · simp [hrest, Except.map] at h

/-- A dry run makes no plan. -/
theorem execute_of_dryRun (hdry : u.dryRun = true) (plans : List ScopePlan) (c : σ) :
    stores.execute u plans c = (.ok (plans.map (·.report 0)), c) := by
  induction plans with
  | nil => rfl
  | cons plan plans ih => simp [execute, makePlan, hdry, ih, Except.map]

theorem exists_store_of_config {scope : Scope} {current : Value} (h : stores.config c scope = .ok current) :
    ∃ store, stores scope = some store := by
  unfold config at h
  cases hs : stores scope with
  | none => simp [hs] at h
  | some store => exact ⟨store, rfl⟩

end Stores

/-! ## Requests -/

namespace Request

variable {σ : Type} {u : Updater} {stores : Stores σ} {disk : Disk} {r : Request} {c : σ}

/-- A request that fails in another way than by an interruption leaves everything as it is. -/
theorem runIn_unchanged {e : UpdateError} (h : (r.runIn u stores disk c).1 = .error e)
    (hplanned : e.isInterruption = false) : (r.runIn u stores disk c).2 = c := by
  unfold runIn at h ⊢
  cases hplans : r.plansFrom u disk (stores.config c) with
  | error e' => rfl
  | ok plans =>
    -- Every scope with a plan has been read, so it has a store; making the plans is only interrupted.
    have hstores : ∀ plan ∈ plans, ∃ store, stores plan.scope = some store := by
      intro plan hplan
      obtain ⟨current, hcurrent⟩ := exists_config_of_plansFrom hplans plan hplan
      exact Stores.exists_store_of_config hcurrent
    rw [hplans] at h
    rcases hexecute : stores.execute u plans c with ⟨e' | reports, c'⟩
    · simp only [hexecute, Except.map, Except.error.injEq] at h
      have hinterrupted := Stores.isInterruption_of_execute hstores hexecute
      rw [h, hplanned] at hinterrupted
      cases hinterrupted
    · simp [hexecute, Except.map] at h

/-- A dry run leaves everything as it is, and reports no move made. -/
theorem runIn_of_dryRun (hdry : u.dryRun = true) (stores : Stores σ) (disk : Disk) (r : Request) (c : σ) :
    (r.runIn u stores disk c).2 = c ∧
      ∀ report, (r.runIn u stores disk c).1 = .ok report → ∀ sr ∈ report.scopes, sr.committed = 0 := by
  unfold runIn
  cases hplans : r.plansFrom u disk (stores.config c) with
  | error e =>
    refine ⟨rfl, fun report h => ?_⟩
    cases h
  | ok plans =>
    simp only [Stores.execute_of_dryRun hdry, Except.map]
    refine ⟨trivial, fun report h sr hsr => ?_⟩
    cases h
    obtain ⟨plan, -, rfl⟩ := List.mem_map.1 hsr
    rfl

theorem fst_runIn_recorded (u : Updater) (stores : Stores σ) (disk : Disk) (r : Request) (c : σ) :
    (r.runIn u stores.recorded disk (c, [])).1 = (r.runIn u stores disk c).1 := by
  have hwithin := stores.within_recorded.runIn_eq u disk r (c, [])
  rw [hwithin]

/-- A request that fails, but is not interrupted, calls for no write, and neither does a dry run, which reports
no move made. This holds in stores of any kind, and in those of a switch. -/
theorem calls_only_interrupted (u : Updater) (r : Request) :
    (∀ (σ : Type) (stores : Stores σ) (disk : Disk) (c : σ),
      (∀ e, (r.runIn u stores disk c).1 = .error e → e.isInterruption = false →
        r.calls u stores disk c = [] ∧ (r.runIn u stores disk c).2 = c) ∧
      (u.dryRun = true → r.calls u stores disk c = [] ∧ (r.runIn u stores disk c).2 = c ∧
        ∀ report, (r.runIn u stores disk c).1 = .ok report →
          ∀ sr ∈ report.scopes, sr.committed = 0)) ∧
      ∀ s : Switch, r.runIn u s.stores s.disk s.content = ((r.run u s).1, (r.run u s).2.content) := by
  refine ⟨fun σ stores disk c => ⟨fun e he hplanned => ?_, fun hdry => ?_⟩, Switch.runIn_stores u r⟩
  · have hrecorded := runIn_unchanged ((fst_runIn_recorded u stores disk r c).trans he) hplanned
    exact ⟨by rw [calls, hrecorded], runIn_unchanged he hplanned⟩
  · obtain ⟨hrecorded, -⟩ := runIn_of_dryRun hdry stores.recorded disk r (c, [])
    obtain ⟨hsame, hcommitted⟩ := runIn_of_dryRun hdry stores disk r c
    exact ⟨by rw [calls, hrecorded], hsame, hcommitted⟩

/-- The removal of a table that the chip does not have. -/
def vlanRemoval : Request := .patch [⟨.remove, .ofNames ["asic0", "VLAN"], none, none⟩]

/-- Updates of several chips that are only planned. -/
def chipPlanner : Updater := { Updater.chipUpdater with dryRun := true }

theorem calls_vlanRemoval :
    (∃ e, (vlanRemoval.runIn Updater.chipUpdater chipRefuses.stores chipRefuses.disk chipRefuses.content).1
        = .error e ∧ e.isInterruption = false) ∧
      vlanRemoval.calls Updater.chipUpdater chipRefuses.stores chipRefuses.disk chipRefuses.content = [] ∧
      chipPlanner.dryRun = true ∧
      tables.calls chipPlanner chipRefuses.stores chipRefuses.disk chipRefuses.content = [] := by
  have herror : (vlanRemoval.runIn Updater.chipUpdater chipRefuses.stores chipRefuses.disk
      chipRefuses.content).1 = .error (.pathResolution (some 0) "/VLAN"
        (.unresolvable (.keyNotFound "" "VLAN"))) := rfl
  have hplanned := ((calls_only_interrupted Updater.chipUpdater vlanRemoval).1 _ chipRefuses.stores
    chipRefuses.disk chipRefuses.content).1 _ herror rfl
  have hdry := ((calls_only_interrupted chipPlanner tables).1 _ chipRefuses.stores chipRefuses.disk
    chipRefuses.content).2 rfl
  exact ⟨⟨_, herror, rfl⟩, hplanned.1, rfl, hdry.1⟩

end Request

end ConfigUpdate
