import ConfigUpdate.Proofs.DiffApply
import ConfigUpdate.Proofs.SearchSoundness
import ConfigUpdate.Proofs.SplitScopes

/-!
# Replacing the configuration

A replacement that succeeds leaves every scope that the target names with the configuration that it gives
for it, and every other scope as it was; made again it finds nothing to do: `Updater.replace_delivers`. What
is planned for a scope are the moves of a difference (`PlanFor`), and plans for different scopes do not
disturb each other (`execute_planFor`).
-/

namespace ConfigUpdate

namespace Switch

/-- All databases are in memory. -/
def InMemory (s : Switch) : Prop :=
  s.All fun db => ∃ ts, db = .memory ts ∧ (Value.object ts).WellFormed

/-- A scope has a configuration that is equal to a given one, in memory. -/
def Holds (s : Switch) (scope : Scope) (config : Value) : Prop :=
  ∃ ts, Dictionary.get? s.databases scope = some (.memory ts) ∧ (Value.object ts).WellFormed ∧
    (Value.object ts).same config = true

theorem config_memory {s : Switch} {scope : Scope} {ts : Tables}
    (h : Dictionary.get? s.databases scope = some (.memory ts)) : s.config scope = .ok (.object ts) := by
  simp [config, h, configOf, Database.store, Store.memory, Tables.toTree]

/-- In memory a configuration is an object of tables. -/
theorem InMemory.exists_tables {s : Switch} (h : s.InMemory) {scope : Scope} {config : Value}
    (hconfig : s.config scope = .ok config) :
    ∃ ts, Dictionary.get? s.databases scope = some (.memory ts) ∧ (Value.object ts).WellFormed ∧
      config = .object ts := by
  cases hdb : Dictionary.get? s.databases scope with
  | none => simp [Switch.config, hdb] at hconfig
  | some db =>
    obtain ⟨ts, rfl, hts⟩ := h scope db hdb
    rw [config_memory hdb] at hconfig
    exact ⟨ts, rfl, hts, (Except.ok.inj hconfig).symm⟩

end Switch

namespace Updater

variable {u : Updater} {s s' : Switch}

/-! ## Planning -/

/-- The plan for a scope has the moves of the difference to the target. -/
theorem perm_diff_of_planScope {scope : Scope} {current target : Value} {literal : List Operation}
    {moves : List Move} (h : u.planScope scope current target literal = .ok moves) :
    moves.Perm (diff current target) := by
  obtain ⟨-, -, h⟩ := exists_of_bind_eq_ok h
  dsimp only at h
  split at h
  · rename_i hempty
    cases h
    rw [List.isEmpty_iff.1 hempty]
  · obtain ⟨-, -, h⟩ := exists_of_bind_eq_ok h
    split at h
    · cases h
    · obtain ⟨-, -, h⟩ := exists_of_bind_eq_ok h
      obtain ⟨sorted, hsort, h⟩ := exists_of_bind_eq_ok h
      obtain ⟨-, -, h⟩ := exists_of_bind_eq_ok h
      cases h
      obtain ⟨order, hperm, rfl, -⟩ := Problem.order_of_sort hsort
      exact Problem.perm_of_positions hperm

/-- A plan for a tree in a scope: the moves of the difference from the configuration of the scope. -/
structure PlanFor (s : Switch) (part : Scope × Value) (plan : ScopePlan) : Prop where
  scope_eq : plan.scope = part.1
  perm : ∃ current, s.config part.1 = .ok current ∧ plan.moves.Perm (diff current part.2)

/-- A plan for a part of a target: the moves of the difference from the configuration of the scope. -/
structure Planned (s : Switch) (part : Scope × Value) (plan : ScopePlan) : Prop where
  scope_eq : plan.scope = part.1
  isObject : part.2.isObject = true
  perm : ∃ current, s.config part.1 = .ok current ∧ plan.moves.Perm (diff current part.2)

theorem planned_of_planTargets {parts : Dictionary Scope Value} {plans : List ScopePlan}
    (h : u.planTargets s parts = .ok plans) : List.Forall₂ (Planned s) parts plans := by
  induction parts generalizing plans with
  | nil =>
    cases h
    exact .nil
  | cons part parts ih =>
    obtain ⟨scope, target⟩ := part
    unfold planTargets at h
    split at h
    · cases h
    · rename_i hobject
      obtain ⟨current, hcurrent, h⟩ := exists_of_bind_eq_ok h
      obtain ⟨moves, hmoves, h⟩ := exists_of_bind_eq_ok h
      obtain ⟨rest, hrest, h⟩ := exists_of_bind_eq_ok h
      cases h
      exact .cons ⟨rfl, by simpa using hobject, current, hcurrent, perm_diff_of_planScope hmoves⟩
        (ih hrest)

/-! ## Making plans -/

/-- What does not touch the scope of a plan leaves the plan as it should be. -/
theorem PlanFor.congr {part : Scope × Value} {plan : ScopePlan} (h : PlanFor s part plan)
    (hdb : Dictionary.get? s'.databases part.1 = Dictionary.get? s.databases part.1)
    (hdisk : s'.disk = s.disk) : PlanFor s' part plan := by
  refine ⟨h.scope_eq, ?_⟩
  obtain ⟨current, hcurrent, hperm⟩ := h.perm
  refine ⟨current, ?_, hperm⟩
  rw [← hcurrent]
  simp only [Switch.config, Switch.configOf, hdb, hdisk]

/-- A plan for a scope does not fail, and it touches no other scope. -/
theorem PlanFor.makes {part : Scope × Value} {plan : ScopePlan} (h : PlanFor s part plan)
    (hmemory : s.InMemory) (htarget : part.2.WellFormed) :
    ∃ s', Makes plan s plan.moves.length s' ∧ s'.InMemory ∧ s'.disk = s.disk ∧
      s'.Holds part.1 (Tables.ofTree part.2).toTree ∧ ∀ scope, scope ≠ part.1 →
        Dictionary.get? s'.databases scope = Dictionary.get? s.databases scope := by
  obtain ⟨scope, target⟩ := part
  obtain ⟨current, hcurrent, hperm⟩ := h.perm
  obtain ⟨ts, hdb, hts, rfl⟩ := hmemory.exists_tables hcurrent
  obtain ⟨ts', happly, hts', hsame⟩ := apply_memory_tables hts htarget hperm
  by_cases hmoves : plan.moves = []
  · have hdone : ts' = ts := by
      rw [hmoves] at happly
      exact (congrArg Prod.snd happly).symm
    subst hdone
    refine ⟨s, ?_, hmemory, rfl, ⟨ts', hdb, hts, hsame⟩, fun _ _ => rfl⟩
    rw [hmoves]
    exact .skipped hmoves
  · have happly' := Switch.apply_within (Database.within_memory s.disk) hdb plan.moves
    rw [happly] at happly'
    have hmakes : Makes plan s plan.moves.length _ := .made hmoves (by rw [h.scope_eq, happly'])
    refine ⟨_, hmakes, hmemory.insert scope ⟨ts', rfl, hts'⟩, rfl, ?_, fun scope' hne => ?_⟩
    · exact ⟨ts', by rw [Dictionary.get?_insert, if_pos rfl], hts', hsame⟩
    · rw [Dictionary.get?_insert, if_neg (Ne.symm hne)]

/-- Plans for different scopes are all made, each in its scope. -/
theorem execute_planFor {parts : Dictionary Scope Value} {plans : List ScopePlan}
    (hdry : u.dryRun = false) (hmemory : s.InMemory) (hnodup : (parts.map Prod.fst).Nodup)
    (htargets : ∀ part ∈ parts, part.2.WellFormed) (h : List.Forall₂ (PlanFor s) parts plans) :
    ∃ s', u.execute plans s = (.ok (plans.map fun plan => plan.report plan.moves.length), s') ∧
      s'.disk = s.disk ∧ (∀ part ∈ parts, s'.Holds part.1 (Tables.ofTree part.2).toTree) ∧
      ∀ scope, scope ∉ parts.map Prod.fst →
        Dictionary.get? s'.databases scope = Dictionary.get? s.databases scope := by
  induction parts generalizing s plans with
  | nil =>
    cases h
    exact ⟨s, rfl, rfl, by simp, fun scope _ => rfl⟩
  | cons part parts ih =>
    obtain ⟨hfresh, hnodup⟩ := List.nodup_cons.1 hnodup
    obtain ⟨htarget, htargets⟩ := List.forall_mem_cons.1 htargets
    obtain ⟨plan, plans, hplan, hplans, rfl⟩ := List.forall₂_cons_left_iff.1 h
    obtain ⟨s₁, hmakes, hmemory₁, hdisk₁, hholds, hothers⟩ := hplan.makes hmemory htarget
    -- The other plans are for other scopes, so they are still as they should be.
    have hrest : List.Forall₂ (PlanFor s₁) parts plans := by
      refine List.forall₂_iff_zip.2 ⟨hplans.length_eq, fun {part' plan'} hzip => ?_⟩
      refine (List.forall₂_zip hplans hzip).congr (hothers _ fun heq => hfresh ?_) hdisk₁
      rw [← heq]
      exact List.mem_map_of_mem (List.of_mem_zip hzip).1
    obtain ⟨s₂, hrest₂, hdisk₂, hholds₂, hothers₂⟩ := ih hmemory₁ hnodup htargets hrest
    refine ⟨s₂, by rw [execute_makes hdry hmakes, hrest₂]; rfl, hdisk₂.trans hdisk₁, ?_,
      fun scope hscope => ?_⟩
    · refine List.forall_mem_cons.2 ⟨?_, hholds₂⟩
      obtain ⟨ts, hts⟩ := hholds
      exact ⟨ts, by rw [hothers₂ _ hfresh]; exact hts.1, hts.2⟩
    · rw [List.map_cons, List.mem_cons, not_or] at hscope
      rw [hothers₂ scope hscope.2, hothers scope hscope.1]

/-- Plans for the parts of a target are all made, each in its scope. -/
theorem execute_planned {parts : Dictionary Scope Value} {plans : List ScopePlan}
    (hdry : u.dryRun = false) (hmemory : s.InMemory) (hnodup : (parts.map Prod.fst).Nodup)
    (htargets : ∀ part ∈ parts, part.2.WellFormed) (h : List.Forall₂ (Planned s) parts plans) :
    ∃ s', u.execute plans s = (.ok (plans.map fun plan => plan.report plan.moves.length), s') ∧
      s'.disk = s.disk ∧ (∀ part ∈ parts, s'.Holds part.1 part.2) ∧
      ∀ scope, scope ∉ parts.map Prod.fst →
        Dictionary.get? s'.databases scope = Dictionary.get? s.databases scope := by
  obtain ⟨hobjects, hplans⟩ := (List.forall₂_and_left parts plans).1 <|
    h.imp fun part plan hplan => ⟨hplan.isObject, PlanFor.mk hplan.scope_eq hplan.perm⟩
  obtain ⟨s', hexecute, hdisk, hholds, hothers⟩ := execute_planFor hdry hmemory hnodup htargets hplans
  refine ⟨s', hexecute, hdisk, fun part hpart => ?_, hothers⟩
  have hholds := hholds part hpart
  obtain ⟨ns, hns⟩ := Value.eq_object_of_isObject (hobjects part hpart)
  rw [hns] at hholds ⊢
  exact hholds

/-! ## Planning again -/

/-- No moves are planned for parts that the scopes hold already. -/
theorem planTargets_of_holds {parts : Dictionary Scope Value}
    (h : ∀ part ∈ parts, s.Holds part.1 part.2) :
    ∃ plans, u.planTargets s parts = .ok plans ∧ ∀ plan ∈ plans, plan.moves = [] := by
  induction parts with
  | nil => exact ⟨[], rfl, by simp⟩
  | cons part parts ih =>
    obtain ⟨scope, target⟩ := part
    obtain ⟨⟨ts, hdb, -, hsame⟩, h⟩ := List.forall_mem_cons.1 h
    obtain ⟨plans, hplans, hidle⟩ := ih h
    have hplan : u.planScope scope (.object ts) target [] = .ok [] := by
      simp only [planScope, diff_eq_nil_of_same hsame]
      rfl
    have hobject : target.isObject = true := (Value.same_isObject hsame).symm
    have hconfig : s.config scope = .ok (.object ts) := Switch.config_memory hdb
    refine ⟨⟨scope, []⟩ :: plans, ?_, List.forall_mem_cons.2 ⟨rfl, hidle⟩⟩
    simp [planTargets, hobject, hconfig, hplan, hplans, bind, Except.bind, pure, Except.pure]

/-- A replacement by what the scopes hold already does nothing. -/
theorem replace_of_holds {target : Value} {parts : Dictionary Scope Value}
    (hparts : Scope.splitConfig u.multiAsic target = .ok parts)
    (h : ∀ part ∈ parts, s.Holds part.1 part.2) :
    ∃ again, u.replace target s = (.ok again, s) ∧
      ∀ r ∈ again.scopes, r.moves = [] ∧ r.committed = 0 := by
  obtain ⟨plans, hplanTargets, hidle⟩ := planTargets_of_holds (u := u) h
  have hplans : u.planReplace s target = .ok plans := by
    simp only [planReplace, hparts]
    exact hplanTargets
  refine ⟨⟨u.dryRun, plans.map (·.report 0)⟩, ?_, fun r hr => ?_⟩
  · simp only [replace, run, hplans, execute_idle hidle, Except.map]
  · obtain ⟨plan, hplan, rfl⟩ := List.mem_map.1 hr
    exact ⟨by rw [ScopePlan.report, hidle plan hplan]; rfl, rfl⟩

/-! ## The whole replacement -/

/-- A replacement that succeeds leaves the scopes that the target names with configurations equal to those
that it gives for them, and the others as they were. It reports as many moves made as planned, and made again
it has nothing to do. -/
theorem replace_delivers (u : Updater) (s s' : Switch) (target : Value) (report : UpdateReport)
    (hdry : u.dryRun = false) (hmemory : s.InMemory) (htarget : target.WellFormed)
    (honce : u.multiAsic = true → Scope.NamedOnce target)
    (h : u.replace target s = (.ok report, s')) :
    (∀ scope config, Scope.Part u.multiAsic target scope config →
        ∃ tree, s'.config scope = .ok tree ∧ tree.same config = true) ∧
      (∀ scope, (∀ config, ¬ Scope.Part u.multiAsic target scope config) →
        Dictionary.get? s'.databases scope = Dictionary.get? s.databases scope) ∧
      (∀ r ∈ report.scopes, r.committed = r.moves.length) ∧
      ∃ again, u.replace target s' = (.ok again, s') ∧
        ∀ r ∈ again.scopes, r.moves = [] ∧ r.committed = 0 := by
  cases hplans : u.planReplace s target with
  | error e => simp [replace, run, hplans] at h
  | ok plans =>
    obtain ⟨parts, hparts, hplanTargets⟩ := exists_of_bind_eq_ok hplans
    have hplanned := planned_of_planTargets hplanTargets
    have hsorted := Scope.sorted_splitConfig hparts
    have hpart : ∀ part ∈ parts, Scope.Part u.multiAsic target part.1 part.2 := fun part hmem =>
      (Scope.get?_splitConfig htarget honce hparts _ _).1 (Dictionary.get?_of_mem hsorted hmem)
    obtain ⟨s₁, hexecute, -, hholds, hothers⟩ := execute_planned hdry hmemory hsorted.nodup_keys
      (fun part hmem => Scope.wellFormed_part htarget (hpart part hmem)) hplanned
    simp only [replace, run, hplans, hexecute, Except.map, Prod.mk.injEq, Except.ok.injEq] at h
    obtain ⟨rfl, rfl⟩ := h
    refine ⟨fun scope config hgives => ?_, fun scope hnone => hothers scope fun hkey => ?_, ?_, ?_⟩
    · have hget := (Scope.get?_splitConfig htarget honce hparts scope config).2 hgives
      obtain ⟨ts, hdb, -, hsame⟩ := hholds _ (Dictionary.mem_of_get? hget)
      exact ⟨_, Switch.config_memory hdb, hsame⟩
    · obtain ⟨part, hmem, rfl⟩ := List.mem_map.1 hkey
      exact hnone part.2 (hpart part hmem)
    · rintro r hr
      obtain ⟨plan, -, rfl⟩ := List.mem_map.1 hr
      exact (List.length_map _).symm
    · exact replace_of_holds hparts hholds

/-! ## A VLAN on one of the chips -/

/-- A switch with a port on the host and an empty table of VLANs on a chip. -/
def portAndChip : Switch where
  databases := [(.host, .memory [("PORT", .object [("Ethernet0", .empty)])]),
    (.asic 0, .memory [("VLAN", .empty)])]
  disk := .blank []

/-- The switch with a VLAN on the chip. -/
def portAndVlan : Switch where
  databases := [(.host, .memory [("PORT", .object [("Ethernet0", .empty)])]),
    (.asic 0, .memory [("VLAN", .object [("Vlan10", .empty)])])]
  disk := .blank []

theorem inMemory_portAndChip : portAndChip.InMemory := by
  refine Switch.all_of_forall_mem ?_
  simp only [portAndChip, List.forall_mem_cons]
  exact ⟨⟨_, rfl, by decide⟩, ⟨_, rfl, by decide⟩, by simp⟩

/-- The VLAN that the chip is to have. -/
def chipVlan : Value := .object [("VLAN", .object [("Vlan10", .empty)])]

/-- The target, which says nothing about the host. -/
def chipTarget : Value := .object [("asic0", chipVlan)]

/-- Updates of several chips without rules about fields, under the rules about references. -/
def chipUpdater : Updater where
  gate := ⟨default, ⟨⟨[], []⟩, []⟩, fun _ _ _ _ => .ok none⟩
  oracle := ReferenceRules.switch.oracle
  budget := 1
  fingerprint s := s.remaining.length.toUInt64
  multiAsic := true
  dryRun := false

/-- A single move that can be made is its own order. -/
theorem sort_single {p : Problem} {current after : Value} {m : Move} (hmoves : p.moves = [m])
    (hstep : m.step current = .ok after) (haccepted : p.oracle after = .ok ()) (hbudget : 0 < p.budget)
    (hprint : p.fingerprint ⟨current, [0]⟩ ≠ p.fingerprint ⟨after, []⟩) : p.sort current = .ok [m] := by
  obtain ⟨hcheck, hrun⟩ := Move.step_eq_ok_iff.1 hstep
  have horder : preferenceOrder [m] = [0] := List.perm_singleton.1 (preferenceOrder_perm [m])
  have hwithin : ¬ p.budget < 1 := Nat.not_lt.2 hbudget
  simp [Problem.sort, Problem.search, Problem.searchFrom, Problem.tryEach, hmoves, horder, hcheck, hrun,
    haccepted, Memory.start, Memory.hold, Memory.enter, hprint, hwithin]

theorem planScope_chip {ops : List Operation} (hops : chipUpdater.gate.checkOperations (.asic 0) ops = .ok ()) :
    chipUpdater.planScope (.asic 0) (.object [("VLAN", .empty)]) chipVlan ops = .ok [Problem.addVlan] := by
  have hdiff : diff (.object [("VLAN", .empty)]) chipVlan = [Problem.addVlan] := rfl
  have hsort : (Problem.mk chipUpdater.oracle [Problem.addVlan] chipUpdater.budget
      chipUpdater.fingerprint).sort (.object [("VLAN", .empty)]) = .ok [Problem.addVlan] :=
    sort_single rfl rfl rfl Nat.one_pos (by decide)
  simp only [planScope, hops, hdiff, hsort]
  rfl

theorem planReplace_chip :
    chipUpdater.planReplace portAndChip chipTarget = .ok [⟨.asic 0, [Problem.addVlan]⟩] := by
  have hsplit : Scope.splitConfig chipUpdater.multiAsic chipTarget = .ok [(.asic 0, chipVlan)] := rfl
  have hconfig : portAndChip.config (.asic 0) = .ok (.object [("VLAN", .empty)]) := rfl
  have hobject : chipVlan.isObject = true := rfl
  have hplan := planScope_chip (show chipUpdater.gate.checkOperations (.asic 0) [] = .ok () from rfl)
  simp [planReplace, hsplit, planTargets, hobject, hconfig, hplan, bind, Except.bind, pure, Except.pure]

/-- The report about the VLAN. -/
def chipReport : UpdateReport := ⟨false, [⟨.asic 0, [Problem.addVlan.toOperation], 1⟩]⟩

theorem replace_chip :
    chipUpdater.dryRun = false ∧ portAndChip.InMemory ∧ chipTarget.WellFormed ∧
      Scope.NamedOnce chipTarget ∧
      chipUpdater.replace chipTarget portAndChip = (.ok chipReport, portAndVlan) ∧
      (∀ scope config, Scope.Part chipUpdater.multiAsic chipTarget scope config →
        ∃ tree, portAndVlan.config scope = .ok tree ∧ tree.same config = true) ∧
      (∀ scope, (∀ config, ¬ Scope.Part chipUpdater.multiAsic chipTarget scope config) →
        Dictionary.get? portAndVlan.databases scope = Dictionary.get? portAndChip.databases scope) ∧
      (∀ r ∈ chipReport.scopes, r.committed = r.moves.length) ∧
      ∃ again, chipUpdater.replace chipTarget portAndVlan = (.ok again, portAndVlan) ∧
        ∀ r ∈ again.scopes, r.moves = [] ∧ r.committed = 0 := by
  have hmemory := inMemory_portAndChip
  have htarget : chipTarget.WellFormed := by decide
  have honce : Scope.NamedOnce chipTarget := by
    intro ms hms a ha b hb scope _ _
    cases hms
    rw [List.mem_singleton.1 ha, List.mem_singleton.1 hb]
  have hreplace : chipUpdater.replace chipTarget portAndChip = (.ok chipReport, portAndVlan) := by
    rw [replace, planReplace_chip]
    rfl
  exact ⟨rfl, hmemory, htarget, honce, hreplace, replace_delivers chipUpdater portAndChip portAndVlan
    chipTarget chipReport rfl hmemory htarget (fun _ => honce) hreplace⟩

end Updater

end ConfigUpdate
