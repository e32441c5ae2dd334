import ConfigUpdate.Proofs.StoreMoves
import ConfigUpdate.Update.Basic

/-!
# Making plans scope by scope

The plans of an update are made one after another, each in the database of its scope, until one of them
fails: `execute_makes`, `execute_fails`. What a plan does to the database is what the store of its kind does
alone (`Switch.apply_within`).
-/

namespace ConfigUpdate

/-! ## Databases inside a switch -/

namespace Database

theorem within_memory (disk : Disk) :
    Store.Within store Store.memory fun ts => (memory ts, disk) :=
  ⟨fun _ => rfl, fun _ _ => rfl⟩

theorem within_faulty (disk : Disk) :
    Store.Within store Store.faulty fun c => (faulty c, disk) :=
  ⟨fun _ => rfl, fun _ _ => rfl⟩

end Database

namespace Switch

variable {s : Switch}

/-- Every database of the switch has a property. -/
def All (P : Database → Prop) (s : Switch) : Prop :=
  ∀ scope db, Dictionary.get? s.databases scope = some db → P db

theorem all_of_forall_mem {P : Database → Prop} (h : ∀ entry ∈ s.databases, P entry.2) : s.All P :=
  fun _ _ hdb => h _ (Dictionary.mem_of_get? hdb)

theorem All.insert {P : Database → Prop} (h : s.All P) (scope : Scope) {db : Database} (hdb : P db) :
    All P ⟨Dictionary.insert s.databases scope db, s.disk⟩ := by
  intro scope' db' hget
  rw [Dictionary.get?_insert] at hget
  split at hget
  · exact Option.some.inj hget ▸ hdb
  · exact h scope' db' hget

/-- The moves of a scope are made in its database as in the store of that kind alone. -/
theorem apply_within {σ : Type} {inner : Store σ} {put : σ → Database}
    (h : Store.Within Database.store inner fun c => (put c, s.disk)) {scope : Scope} {c : σ}
    (hdb : Dictionary.get? s.databases scope = some (put c)) (moves : List Move) :
    s.apply scope moves = ((inner.apply moves c).1,
      ⟨Dictionary.insert s.databases scope (put (inner.apply moves c).2), s.disk⟩) := by
  simp only [apply, hdb]
  rw [h.apply_eq]

end Switch

/-! ## One plan after another -/

namespace Updater

variable {u : Updater} {s s' : Switch} {plan : ScopePlan}

/-- A plan is made in its scope, with a number of moves; a plan without moves is skipped. -/
inductive Makes (plan : ScopePlan) (s : Switch) : Nat → Switch → Prop
  | skipped : plan.moves = [] → Makes plan s 0 s
  | made {report : CommitReport} {s' : Switch} : plan.moves ≠ [] →
    s.apply plan.scope plan.moves = (.ok report, s') → Makes plan s report.committed s'

theorem makes_or_fails (plan : ScopePlan) (s : Switch) :
    (∃ committed s', Makes plan s committed s') ∨
      plan.moves ≠ [] ∧ ∃ e s', s.apply plan.scope plan.moves = (.error e, s') := by
  by_cases hmoves : plan.moves = []
  · exact .inl ⟨0, s, .skipped hmoves⟩
  · rcases happly : s.apply plan.scope plan.moves with ⟨e | report, s'⟩
    · exact .inr ⟨hmoves, e, s', rfl⟩
    · exact .inl ⟨report.committed, s', .made hmoves happly⟩

/-- After a plan that is made the others follow. -/
theorem execute_makes (hdry : u.dryRun = false) {committed : Nat} (h : Makes plan s committed s')
    (plans : List ScopePlan) :
    u.execute (plan :: plans) s
      = ((u.execute plans s').1.map (plan.report committed :: ·), (u.execute plans s').2) := by
  cases h with
  | skipped hmoves => simp [execute, hmoves]
  | made hmoves happly => simp [execute, hdry, hmoves, happly, Except.map]

/-- After a plan that fails no other one is made. -/
theorem execute_fails (hdry : u.dryRun = false) (hmoves : plan.moves ≠ []) {e : UpdateError}
    (h : s.apply plan.scope plan.moves = (.error e, s')) (plans : List ScopePlan) :
    u.execute (plan :: plans) s = (.error e, s') := by
  simp [execute, hdry, hmoves, h, Except.map]

/-- Plans without moves are made by doing nothing. -/
theorem execute_idle {plans : List ScopePlan} (h : ∀ plan ∈ plans, plan.moves = []) :
    u.execute plans s = (.ok (plans.map (·.report 0)), s) := by
  induction plans with
  | nil => rfl
  | cons plan plans ih =>
    obtain ⟨hplan, hplans⟩ := List.forall_mem_cons.1 h
    simp [execute, hplan, ih hplans, Except.map]

/-- A dry run does nothing. -/
theorem execute_dryRun (h : u.dryRun = true) (plans : List ScopePlan) (s : Switch) :
    u.execute plans s = (.ok (plans.map (·.report 0)), s) := by
  induction plans with
  | nil => rfl
  | cons plan plans ih => simp [execute, h, ih, Except.map]

theorem run_dryRun (h : u.dryRun = true) (plans : Except UpdateError (List ScopePlan)) (s : Switch) :
    (u.run plans s).2 = s := by
  cases plans with
  | error e => rfl
  | ok plans => simp only [run, execute_dryRun h]

theorem rollback_dryRun (h : u.dryRun = true) (directory name : String) (s : Switch) :
    (u.rollback directory name s).2 = s := by
  unfold rollback
  split
  · rfl
  · exact run_dryRun h _ s

end Updater

end ConfigUpdate
