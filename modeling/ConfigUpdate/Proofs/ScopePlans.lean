import ConfigUpdate.Proofs.ZeroEffect

/-!
# Plans of single scopes

Planning goes through the scopes of a request and makes each plan from the configuration that it reads there
(`Request.plans_eq_plansFrom`). So it needs to know nothing of the switch but how configurations are read, and
it has read the configuration of every scope that has a plan: `Request.exists_config_of_plansFrom`.
-/

namespace ConfigUpdate

/-! ## Traversals that succeed -/

theorem forall₂_of_mapM {ε α β : Type} {f : α → Except ε β} {as : List α} {bs : List β}
    (h : as.mapM f = .ok bs) : List.Forall₂ (fun a b => f a = .ok b) as bs := by
  induction as generalizing bs with
  | nil =>
    cases h
    exact .nil
  | cons a as ih =>
    rw [List.mapM_cons] at h
    obtain ⟨b, hb, h⟩ := exists_of_bind_eq_ok h
    obtain ⟨rest, hrest, h⟩ := exists_of_bind_eq_ok h
    cases h
    exact .cons hb (ih hrest)

theorem exists_mem_of_forall₂ {α β : Type} {R : α → β → Prop} {as : List α} {bs : List β}
    (h : List.Forall₂ R as bs) {b : β} (hb : b ∈ bs) : ∃ a ∈ as, R a b := by
  induction h with
  | nil => cases hb
  | cons hab _ ih =>
    rcases List.mem_cons.1 hb with rfl | hb
    · exact ⟨_, List.mem_cons_self, hab⟩
    · obtain ⟨a, ha, hr⟩ := ih hb
      exact ⟨a, List.mem_cons_of_mem _ ha, hr⟩

/-! ## One scope -/

namespace Updater

variable (u : Updater) (read : Scope → Except UpdateError Value)

/-- The plan for the operations of a scope. -/
def groupPlan (group : Scope × List Operation) : Except UpdateError ScopePlan := do
  let current ← read group.1
  let target ← Operation.runAll current group.2
  let moves ← u.planScope group.1 current target group.2
  return ⟨group.1, moves⟩

/-- The plan for the target of a scope. -/
def targetPlan (part : Scope × Value) : Except UpdateError ScopePlan := do
  if !part.2.isObject then
    throw (.invalidPatch ("configuration for " ++ part.1.name ++ " must be an object, found "
      ++ part.2.kind))
  let current ← read part.1
  let moves ← u.planScope part.1 current part.2 []
  return ⟨part.1, moves⟩

theorem planGroups_eq_mapM (s : Switch) (groups : Dictionary Scope (List Operation)) :
    u.planGroups s groups = groups.mapM (u.groupPlan s.config) := by
  induction groups with
  | nil => rfl
  | cons group groups ih =>
    rw [List.mapM_cons, ← ih]
    simp only [planGroups, groupPlan, bind_assoc, pure_bind]

theorem planTargets_eq_mapM (s : Switch) (parts : Dictionary Scope Value) :
    u.planTargets s parts = parts.mapM (u.targetPlan s.config) := by
  induction parts with
  | nil => rfl
  | cons part parts ih =>
    obtain ⟨scope, target⟩ := part
    rw [List.mapM_cons, ← ih]
    by_cases hobject : target.isObject = true
    · simp [planTargets, targetPlan, hobject, bind_assoc]
    · simp [planTargets, targetPlan, hobject]

variable {u read} {plan : ScopePlan}

theorem groupPlan_eq_ok {group : Scope × List Operation} (h : u.groupPlan read group = .ok plan) :
    ∃ current target, read group.1 = .ok current ∧ Operation.runAll current group.2 = .ok target ∧
      plan.scope = group.1 ∧ u.planScope group.1 current target group.2 = .ok plan.moves := by
  obtain ⟨current, hcurrent, h⟩ := exists_of_bind_eq_ok h
  obtain ⟨target, htarget, h⟩ := exists_of_bind_eq_ok h
  obtain ⟨moves, hmoves, h⟩ := exists_of_bind_eq_ok h
  cases h
  exact ⟨current, target, hcurrent, htarget, rfl, hmoves⟩

theorem targetPlan_eq_ok {part : Scope × Value} (h : u.targetPlan read part = .ok plan) :
    ∃ current, read part.1 = .ok current ∧ plan.scope = part.1 := by
  unfold targetPlan at h
  split at h
  · cases h
  · obtain ⟨current, hcurrent, h⟩ := exists_of_bind_eq_ok h
    obtain ⟨moves, -, h⟩ := exists_of_bind_eq_ok h
    cases h
    exact ⟨current, hcurrent, rfl⟩

end Updater

/-! ## All scopes -/

namespace Request

/-- What is planned for the request, if configurations are read so and the checkpoints are on a disk. -/
def plansFrom (u : Updater) (disk : Disk) (read : Scope → Except UpdateError Value) :
    Request → Except UpdateError (List ScopePlan)
  | patch ops => do (← Scope.splitOperations u.multiAsic ops).mapM (u.groupPlan read)
  | replace target => do (← Scope.splitConfig u.multiAsic target).mapM (u.targetPlan read)
  | rollback directory name => do
    let target ← Checkpoint.load directory name disk
    (← Scope.splitConfig u.multiAsic target).mapM (u.targetPlan read)

theorem plans_eq_plansFrom (u : Updater) (s : Switch) (r : Request) :
    r.plans u s = r.plansFrom u s.disk s.config := by
  cases r <;>
    simp only [plans, plansFrom, Updater.planPatch, Updater.planReplace, Updater.planGroups_eq_mapM,
      Updater.planTargets_eq_mapM]

variable {u : Updater} {disk : Disk} {read : Scope → Except UpdateError Value} {r : Request}

/-- A scope has a plan only if its configuration could be read. -/
theorem exists_config_of_plansFrom {plans : List ScopePlan} (h : r.plansFrom u disk read = .ok plans) :
    ∀ plan ∈ plans, ∃ current, read plan.scope = .ok current := by
  have htargets : ∀ parts : Dictionary Scope Value, parts.mapM (u.targetPlan read) = .ok plans →
      ∀ plan ∈ plans, ∃ current, read plan.scope = .ok current := by
    intro parts hplans plan hplan
    obtain ⟨part, -, hpart⟩ := exists_mem_of_forall₂ (forall₂_of_mapM hplans) hplan
    obtain ⟨current, hcurrent, hscope⟩ := Updater.targetPlan_eq_ok hpart
    exact ⟨current, by rw [hscope]; exact hcurrent⟩
  cases r with
  | patch ops =>
    obtain ⟨groups, -, hplans⟩ := exists_of_bind_eq_ok h
    intro plan hplan
    obtain ⟨group, -, hgroup⟩ := exists_mem_of_forall₂ (forall₂_of_mapM hplans) hplan
    obtain ⟨current, -, hcurrent, -, hscope, -⟩ := Updater.groupPlan_eq_ok hgroup
    exact ⟨current, by rw [hscope]; exact hcurrent⟩
  | replace target =>
    obtain ⟨parts, -, hplans⟩ := exists_of_bind_eq_ok h
    exact htargets parts hplans
  | rollback directory name =>
    obtain ⟨target, -, h⟩ := exists_of_bind_eq_ok h
    obtain ⟨parts, -, hplans⟩ := exists_of_bind_eq_ok h
    exact htargets parts hplans

end Request

end ConfigUpdate
