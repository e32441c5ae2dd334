import ConfigUpdate.Proofs.PatchGroups
import ConfigUpdate.Proofs.ScopePlans
import ConfigUpdate.Proofs.WellFormedEdits

/-!
# Carrying out a patch

A patch that succeeds leaves every scope with the tables of the tree that its operations make of the
configuration there, and every scope without operations as it was: `Updater.applyPatch_delivers_tables`. So the
configuration is that tree exactly if the tree is an object. A patch may make something else of it, and is
accepted all the same (`Updater.exists_patch_lost`).
-/

namespace ConfigUpdate

/-- What a patch makes of a scope: the tree of its operations, from the configuration before. -/
def Switch.Reaches (s : Switch) (group : Scope × List Operation) (part : Scope × Value) : Prop :=
  part.1 = group.1 ∧ ∃ before, s.config group.1 = .ok before ∧ Operation.runAll before group.2 = .ok part.2

namespace Updater

variable {u : Updater} {s s' : Switch}

theorem exists_part_of_groupPlan {group : Scope × List Operation} {plan : ScopePlan}
    (h : u.groupPlan s.config group = .ok plan) : ∃ part, s.Reaches group part ∧ PlanFor s part plan := by
  obtain ⟨before, target, hbefore, htarget, hscope, hplan⟩ := groupPlan_eq_ok h
  have hperm := perm_diff_of_planScope hplan
  exact ⟨(group.1, target), ⟨rfl, before, hbefore, htarget⟩, hscope, before, hbefore, hperm⟩

theorem exists_parts_of_planGroups {groups : Dictionary Scope (List Operation)} {plans : List ScopePlan}
    (h : u.planGroups s groups = .ok plans) :
    ∃ parts, List.Forall₂ s.Reaches groups parts ∧ List.Forall₂ (PlanFor s) parts plans := by
  rw [planGroups_eq_mapM] at h
  have hplans := forall₂_of_mapM h
  clear h
  induction hplans with
  | nil => exact ⟨[], .nil, .nil⟩
  | cons hplan _ ih =>
    obtain ⟨part, hreaches, hpart⟩ := exists_part_of_groupPlan hplan
    obtain ⟨parts, hreach, hparts⟩ := ih
    exact ⟨part :: parts, .cons hreaches hreach, .cons hpart hparts⟩

theorem map_fst_of_reaches {groups : Dictionary Scope (List Operation)} {parts : Dictionary Scope Value}
    (h : List.Forall₂ s.Reaches groups parts) : parts.map Prod.fst = groups.map Prod.fst := by
  induction h with
  | nil => rfl
  | cons hreaches _ ih => rw [List.map_cons, List.map_cons, hreaches.1, ih]

theorem wellFormed_of_reaches {group : Scope × List Operation} {part : Scope × Value} (hmemory : s.InMemory)
    (hvalues : ∀ op ∈ group.2, ∀ v, op.value = some v → v.WellFormed) (h : s.Reaches group part) :
    part.2.WellFormed := by
  obtain ⟨-, before, hbefore, htarget⟩ := h
  obtain ⟨ts, -, hts, rfl⟩ := hmemory.exists_tables hbefore
  exact Operation.wellFormed_runAll hts hvalues htarget

/-- A tree without tables does not equal an object, and any other one equals its tables. -/
theorem same_iff_isObject {tree target : Value} (h : tree.same (Tables.ofTree target).toTree = true)
    (htree : tree.isObject = true) : tree.same target = true ↔ target.isObject = true := by
  constructor
  · intro hsame
    rw [← Value.same_isObject hsame]
    exact htree
  · intro hobject
    obtain ⟨ns, rfl⟩ := Value.eq_object_of_isObject hobject
    exact h

/-- A patch that succeeds leaves the scopes that it touches with the tables of the trees that its operations
make of what was there, and the others as they were. The configuration of a scope is its tree if and only if
the tree is an object. -/
theorem applyPatch_delivers_tables (u : Updater) (s s' : Switch) (ops : List Operation) (report : UpdateReport)
    (hdry : u.dryRun = false) (hmemory : s.InMemory)
    (hvalues : ∀ op ∈ ops, ∀ v, op.value = some v → v.WellFormed)
    (h : u.applyPatch ops s = (.ok report, s')) :
    ∃ groups, Scope.splitOperations u.multiAsic ops = .ok groups ∧
      (∀ scope share, Dictionary.get? groups scope = some share → ∃ before target after,
        s.config scope = .ok before ∧ Operation.runAll before share = .ok target ∧
        s'.config scope = .ok after ∧ after.same (Tables.ofTree target).toTree = true ∧
        (after.same target = true ↔ target.isObject = true)) ∧
      ∀ scope, Dictionary.get? groups scope = none →
        Dictionary.get? s'.databases scope = Dictionary.get? s.databases scope := by
  cases hplans : u.planPatch s ops with
  | error e => simp [applyPatch, run, hplans] at h
  | ok plans =>
    obtain ⟨groups, hgroups, hplanGroups⟩ := exists_of_bind_eq_ok hplans
    obtain ⟨parts, hreach, hparts⟩ := exists_parts_of_planGroups hplanGroups
    have hsorted := Scope.sorted_splitOperations hgroups
    have hkeys := map_fst_of_reaches hreach
    have hnodup : (parts.map Prod.fst).Nodup := by
      rw [hkeys]
      exact hsorted.nodup_keys
    have htargets : ∀ part ∈ parts, part.2.WellFormed := by
      intro part hpart
      obtain ⟨group, hgroup, hreaches⟩ := exists_mem_of_forall₂ hreach hpart
      refine wellFormed_of_reaches hmemory (fun op' hop' v hv => ?_) hreaches
      obtain ⟨op, hop, hvalue⟩ := Scope.exists_value_of_splitOperations hgroups group hgroup op' hop'
      exact hvalues op hop v (hvalue ▸ hv)
    obtain ⟨s₁, hexecute, -, hholds, hothers⟩ := execute_planFor hdry hmemory hnodup htargets hparts
    simp only [applyPatch, run, hplans, hexecute, Except.map, Prod.mk.injEq, Except.ok.injEq] at h
    obtain ⟨-, rfl⟩ := h
    refine ⟨groups, hgroups, fun scope share hshare => ?_, fun scope hnone => hothers scope ?_⟩
    · obtain ⟨part, hpart, hreaches⟩ := exists_mem_of_forall₂ hreach.flip (Dictionary.mem_of_get? hshare)
      obtain ⟨hscope, before, hbefore, htarget⟩ := hreaches
      obtain ⟨ts, hdb, -, hsame⟩ := hholds part hpart
      rw [hscope] at hdb
      exact ⟨before, part.2, .object ts, hbefore, htarget, Switch.config_memory hdb, hsame,
        same_iff_isObject hsame rfl⟩
    · rw [hkeys]
      intro hmem
      have hcontains := Dictionary.mem_keys_iff.1 hmem
      simp [Dictionary.contains, hnone] at hcontains

/-! ## A patch of one of the chips -/

/-- The addition of a VLAN to the chip. -/
def addChipVlan : Operation := ⟨.add, .ofNames ["asic0", "VLAN", "Vlan10"], some .empty, none⟩

/-- The same operation inside the chip. -/
def addVlanInside : Operation := ⟨.add, .ofNames ["VLAN", "Vlan10"], some .empty, none⟩

theorem applyPatch_addChipVlan :
    chipUpdater.applyPatch [addChipVlan] portAndChip = (.ok chipReport, portAndVlan) := by
  have hsplit : Scope.splitOperations chipUpdater.multiAsic [addChipVlan]
      = .ok [(.asic 0, [addVlanInside])] := rfl
  have hconfig : portAndChip.config (.asic 0) = .ok (.object [("VLAN", .empty)]) := rfl
  have hrun : Operation.runAll (.object [("VLAN", .empty)]) [addVlanInside] = .ok chipVlan := rfl
  have hgate : chipUpdater.gate.checkOperations (.asic 0) [addVlanInside] = .ok () := rfl
  have hplan := planScope_chip hgate
  have hplans : chipUpdater.planPatch portAndChip [addChipVlan] = .ok [⟨.asic 0, [Problem.addVlan]⟩] := by
    simp [planPatch, hsplit, planGroups, hconfig, hrun, hplan, bind, Except.bind, pure, Except.pure]
  rw [applyPatch, hplans]
  rfl

theorem applyPatch_delivers_tables_addChipVlan :
    chipUpdater.dryRun = false ∧ portAndChip.InMemory ∧
      (∀ op ∈ [addChipVlan], ∀ v, op.value = some v → v.WellFormed) ∧
      chipUpdater.applyPatch [addChipVlan] portAndChip = (.ok chipReport, portAndVlan) ∧
      ∃ groups, Scope.splitOperations chipUpdater.multiAsic [addChipVlan] = .ok groups ∧
        (∀ scope share, Dictionary.get? groups scope = some share → ∃ before target after,
          portAndChip.config scope = .ok before ∧ Operation.runAll before share = .ok target ∧
          portAndVlan.config scope = .ok after ∧ after.same (Tables.ofTree target).toTree = true ∧
          (after.same target = true ↔ target.isObject = true)) ∧
        ∀ scope, Dictionary.get? groups scope = none →
          Dictionary.get? portAndVlan.databases scope = Dictionary.get? portAndChip.databases scope := by
  have hvalues : ∀ op ∈ [addChipVlan], ∀ v, op.value = some v → v.WellFormed := by
    intro op hop v hv
    rw [List.mem_singleton.1 hop] at hv
    cases hv
    decide
  exact ⟨rfl, inMemory_portAndChip, hvalues, applyPatch_addChipVlan,
    applyPatch_delivers_tables chipUpdater portAndChip portAndVlan [addChipVlan] chipReport rfl
      inMemory_portAndChip hvalues applyPatch_addChipVlan⟩

/-! ## A patch that puts a number in the place of the configuration -/

/-- Updates of a single chip. -/
def hostUpdater : Updater := { chipUpdater with multiAsic := false }

/-- The configuration of a host with a VLAN. -/
def hostTables : Tables := [("VLAN", .object [("Vlan10", .empty)])]

/-- The host, with its tables in memory. -/
def hostWith (ts : Tables) : Switch := ⟨[(.host, .memory ts)], .blank []⟩

/-- The number. -/
def five : Value := .scalar (.number (.integer 5))

/-- The replacement of the configuration by the number. -/
def putFive : Operation := ⟨.replace, [], some five, none⟩

/-- The move that is planned for it. -/
def moveFive : Move := .replace [] hostTables.toTree five

theorem planScope_putFive :
    hostUpdater.planScope .host hostTables.toTree five [putFive] = .ok [moveFive] := by
  have hdiff : diff hostTables.toTree five = [moveFive] := rfl
  have hsort : (Problem.mk hostUpdater.oracle [moveFive] hostUpdater.budget
      hostUpdater.fingerprint).sort hostTables.toTree = .ok [moveFive] :=
    sort_single rfl rfl rfl Nat.one_pos (by decide)
  simp only [planScope, hdiff, hsort]
  rfl

theorem applyPatch_putFive : hostUpdater.applyPatch [putFive] (hostWith hostTables)
    = (.ok ⟨false, [⟨.host, [moveFive.toOperation], 1⟩]⟩, hostWith []) := by
  have hsplit : Scope.splitOperations hostUpdater.multiAsic [putFive] = .ok [(.host, [putFive])] := rfl
  have hconfig : (hostWith hostTables).config .host = .ok hostTables.toTree := rfl
  have hrun : Operation.runAll hostTables.toTree [putFive] = .ok five := rfl
  have hplans : hostUpdater.planPatch (hostWith hostTables) [putFive] = .ok [⟨.host, [moveFive]⟩] := by
    simp [planPatch, hsplit, planGroups, hconfig, hrun, planScope_putFive, bind, Except.bind, pure, Except.pure]
  rw [applyPatch, hplans]
  rfl

/-- The number is lost: the patch succeeds and leaves an empty configuration. -/
theorem exists_patch_lost :
    ¬ ∀ (u : Updater) (s s' : Switch) (ops : List Operation) (report : UpdateReport), u.dryRun = false →
      s.InMemory → (∀ op ∈ ops, ∀ v, op.value = some v → v.WellFormed) →
      u.applyPatch ops s = (.ok report, s') →
      ∃ groups, Scope.splitOperations u.multiAsic ops = .ok groups ∧
        (∀ scope share, Dictionary.get? groups scope = some share → ∃ before target after,
          s.config scope = .ok before ∧ Operation.runAll before share = .ok target ∧
          s'.config scope = .ok after ∧ after.same target = true) ∧
        ∀ scope, Dictionary.get? groups scope = none →
          Dictionary.get? s'.databases scope = Dictionary.get? s.databases scope := by
  intro hall
  have hmemory : (hostWith hostTables).InMemory := by
    refine Switch.all_of_forall_mem ?_
    simp only [hostWith, List.forall_mem_cons]
    exact ⟨⟨_, rfl, by decide⟩, by simp⟩
  have hvalues : ∀ op ∈ [putFive], ∀ v, op.value = some v → v.WellFormed := by
    intro op hop v hv
    rw [List.mem_singleton.1 hop] at hv
    cases hv
    decide
  obtain ⟨groups, hgroups, hdelivers, -⟩ := hall hostUpdater (hostWith hostTables) (hostWith []) [putFive] _ rfl
    hmemory hvalues applyPatch_putFive
  cases hgroups
  obtain ⟨before, target, after, hbefore, htarget, hafter, hsame⟩ := hdelivers .host [putFive] rfl
  cases hbefore
  cases htarget
  cases hafter
  cases hsame

end Updater

end ConfigUpdate
