import ConfigUpdate.Proofs.IntegralTrees
import ConfigUpdate.Proofs.PatchDelivery
import ConfigUpdate.Proofs.ReadTrees

/-!
# Histories of a switch

On a switch with its databases in memory a request plans for parts of the configuration, each for a scope of its
own, and then either changes nothing or carries its plans out (`Request.exists_parts`). So whatever requests are
made, and whether they succeed or fail, the databases stay in memory, no scope appears or disappears, and without
several chips only the host is touched: `Updater.History.keepsScopes`.
-/

namespace ConfigUpdate

/-! ## Parts of a target -/

namespace Scope

variable {parts : Dictionary Scope Value} {target : Value} {multiAsic : Bool}

/-- A part is the target itself, for the host, or the value of one of its members. -/
theorem mem_splitConfig_cases (h : splitConfig multiAsic target = .ok parts) {part : Scope × Value}
    (hpart : part ∈ parts) :
    (multiAsic = false ∧ part = (host, target)) ∨
      ∃ ms name, multiAsic = true ∧ target = .object ms ∧ (name, part.2) ∈ ms ∧ ofName? name = some part.1 := by
  have hget := Dictionary.get?_of_mem (sorted_splitConfig h) hpart
  unfold splitConfig at h
  cases multiAsic with
  | false =>
    cases h
    exact .inl ⟨rfl, List.mem_singleton.1 hpart⟩
  | true =>
    simp only [if_true] at h
    split at h
    · rename_i ms
      obtain hbefore | ⟨name, hmem, hname⟩ := mem_of_get?_splitInto h hget
      · cases hbefore
      · exact .inr ⟨ms, name, rfl, rfl, hmem, hname⟩
    · cases h

theorem wellFormed_of_mem_splitConfig (htarget : target.WellFormed)
    (h : splitConfig multiAsic target = .ok parts) : ∀ part ∈ parts, part.2.WellFormed := by
  intro part hpart
  obtain ⟨-, rfl⟩ | ⟨ms, name, -, rfl, hmem, -⟩ := mem_splitConfig_cases h hpart
  · exact htarget
  · exact Value.wellFormedMembers_iff.1 htarget.2 _ hmem

theorem integral_of_mem_splitConfig (htarget : target.Integral)
    (h : splitConfig multiAsic target = .ok parts) : ∀ part ∈ parts, part.2.Integral := by
  intro part hpart
  obtain ⟨-, rfl⟩ | ⟨ms, name, -, rfl, hmem, -⟩ := mem_splitConfig_cases h hpart
  · exact htarget
  · exact Value.integralMembers_iff.1 htarget _ hmem

theorem host_of_splitConfig (h : splitConfig false target = .ok parts) : ∀ part ∈ parts, part.1 = host := by
  cases h
  exact List.forall_mem_singleton.2 rfl

theorem host_of_splitOperations {ops : List Operation} {groups : Dictionary Scope (List Operation)}
    (h : splitOperations false ops = .ok groups) : ∀ group ∈ groups, group.1 = host := by
  cases h
  split
  · exact List.forall_mem_nil _
  · exact List.forall_mem_singleton.2 rfl

end Scope

/-! ## Requests -/

namespace Checkpoint

/-- What is loaded has been read from a text. -/
theorem wellFormed_of_load {directory name : String} {disk : Disk} {config : Value}
    (h : load directory name disk = .ok config) : config.WellFormed := by
  obtain ⟨-, -, h⟩ := exists_of_bind_eq_ok h
  split at h
  · cases h
  · split at h
    · cases h
    · rename_i hparse
      split at h
      · cases h
        exact Json.wellFormed_of_parse? hparse
      · cases h

end Checkpoint

namespace Request

/-- The values that the request carries are well formed. -/
def WellFormed : Request → Prop
  | patch ops => ∀ op ∈ ops, ∀ v, op.value = some v → v.WellFormed
  | replace target => target.WellFormed
  | rollback _ _ => True

variable {u : Updater} {r : Request} {s s' : Switch} {plans : List ScopePlan}

/-- Plans for targets are plans for their parts. -/
theorem exists_parts_of_planReplace {target : Value} (htarget : target.WellFormed)
    (h : u.planReplace s target = .ok plans) :
    ∃ parts : Dictionary Scope Value, (parts.map Prod.fst).Nodup ∧ (∀ part ∈ parts, part.2.WellFormed) ∧
      (u.multiAsic = false → ∀ part ∈ parts, part.1 = .host) ∧
      List.Forall₂ (Updater.PlanFor s) parts plans := by
  obtain ⟨parts, hparts, hplans⟩ := exists_of_bind_eq_ok h
  refine ⟨parts, (Scope.sorted_splitConfig hparts).nodup_keys,
    Scope.wellFormed_of_mem_splitConfig htarget hparts, fun hsingle => ?_, ?_⟩
  · rw [hsingle] at hparts
    exact Scope.host_of_splitConfig hparts
  · exact (Updater.planned_of_planTargets hplans).imp fun _ _ hplan => ⟨hplan.scope_eq, hplan.perm⟩

/-- What is planned for a request are plans for parts of the configuration, one for each scope. -/
theorem exists_parts (hmemory : s.InMemory) (hr : r.WellFormed) (h : r.plans u s = .ok plans) :
    ∃ parts : Dictionary Scope Value, (parts.map Prod.fst).Nodup ∧ (∀ part ∈ parts, part.2.WellFormed) ∧
      (u.multiAsic = false → ∀ part ∈ parts, part.1 = .host) ∧
      List.Forall₂ (Updater.PlanFor s) parts plans := by
  cases r with
  | patch ops =>
    obtain ⟨groups, hgroups, hplans⟩ := exists_of_bind_eq_ok h
    obtain ⟨parts, hreach, hparts⟩ := Updater.exists_parts_of_planGroups hplans
    have hkeys := Updater.map_fst_of_reaches hreach
    refine ⟨parts, hkeys ▸ (Scope.sorted_splitOperations hgroups).nodup_keys, fun part hpart => ?_,
      fun hsingle part hpart => ?_, hparts⟩
    · obtain ⟨group, hgroup, hreaches⟩ := exists_mem_of_forall₂ hreach hpart
      refine Updater.wellFormed_of_reaches hmemory (fun op' hop' v hv => ?_) hreaches
      obtain ⟨op, hop, hvalue⟩ := Scope.exists_value_of_splitOperations hgroups group hgroup op' hop'
      exact hr op hop v (hvalue ▸ hv)
    · obtain ⟨group, hgroup, hreaches⟩ := exists_mem_of_forall₂ hreach hpart
      rw [hsingle] at hgroups
      exact hreaches.1.trans (Scope.host_of_splitOperations hgroups group hgroup)
  | replace target => exact exists_parts_of_planReplace hr h
  | rollback directory name =>
    obtain ⟨target, hload, hplans⟩ := exists_of_bind_eq_ok h
    exact exists_parts_of_planReplace (Checkpoint.wellFormed_of_load hload) hplans

end Request

namespace Switch

/-- The later switch has its databases in memory too, for the same scopes, and without several chips it differs
in the host alone. -/
structure KeepsScopes (multiAsic : Bool) (s s' : Switch) : Prop where
  memory : s'.InMemory
  isSome : ∀ scope, (Dictionary.get? s'.databases scope).isSome = (Dictionary.get? s.databases scope).isSome
  single : multiAsic = false → ∀ scope, scope ≠ .host →
    Dictionary.get? s'.databases scope = Dictionary.get? s.databases scope

variable {multiAsic : Bool} {s s' s'' : Switch}

theorem KeepsScopes.refl (h : s.InMemory) (multiAsic : Bool) : KeepsScopes multiAsic s s :=
  ⟨h, fun _ => rfl, fun _ _ _ => rfl⟩

theorem KeepsScopes.trans (h : KeepsScopes multiAsic s s') (h' : KeepsScopes multiAsic s' s'') :
    KeepsScopes multiAsic s s'' :=
  ⟨h'.memory, fun scope => (h'.isSome scope).trans (h.isSome scope), fun hsingle scope hscope =>
    (h'.single hsingle scope hscope).trans (h.single hsingle scope hscope)⟩

end Switch

namespace Updater

variable {u : Updater} {s s' : Switch} {path : String}

/-- Plans that are carried out keep the scopes. -/
theorem keepsScopes_of_planFor {parts : Dictionary Scope Value} {plans : List ScopePlan} (hmemory : s.InMemory)
    (hsingle : u.multiAsic = false → ∀ part ∈ parts, part.1 = .host)
    (hplans : List.Forall₂ (PlanFor s) parts plans)
    (hholds : ∀ part ∈ parts, s'.Holds part.1 (Tables.ofTree part.2).toTree)
    (hothers : ∀ scope, scope ∉ parts.map Prod.fst →
      Dictionary.get? s'.databases scope = Dictionary.get? s.databases scope) :
    Switch.KeepsScopes u.multiAsic s s' := by
  refine ⟨fun scope db hdb => ?_, fun scope => ?_, fun hchips scope hscope => hothers scope fun hmem => ?_⟩
  · by_cases hmem : scope ∈ parts.map Prod.fst
    · obtain ⟨part, hpart, rfl⟩ := List.mem_map.1 hmem
      obtain ⟨ts, hts, hwell, -⟩ := hholds part hpart
      exact ⟨ts, Option.some.inj (hdb.symm.trans hts), hwell⟩
    · exact hmemory scope db ((hothers scope hmem).symm.trans hdb)
  · by_cases hmem : scope ∈ parts.map Prod.fst
    · obtain ⟨part, hpart, rfl⟩ := List.mem_map.1 hmem
      obtain ⟨plan, -, hplan⟩ := exists_mem_of_forall₂ hplans.flip hpart
      obtain ⟨current, hcurrent, -⟩ := hplan.perm
      obtain ⟨ts, hbefore, -⟩ := hmemory.exists_tables hcurrent
      obtain ⟨ts', hafter, -⟩ := hholds part hpart
      rw [hbefore, hafter]
      rfl
    · rw [hothers scope hmem]
  · obtain ⟨part, hpart, rfl⟩ := List.mem_map.1 hmem
    exact hscope (hsingle hchips part hpart)

/-- The step: a request keeps the scopes, whatever its outcome, and leaves the disk alone. -/
theorem keepsScopes_run (hdry : u.dryRun = false) (hmemory : s.InMemory) {r : Request} (hr : r.WellFormed) :
    Switch.KeepsScopes u.multiAsic s (r.run u s).2 ∧ (r.run u s).2.disk = s.disk := by
  rw [Request.run_eq]
  cases hplans : r.plans u s with
  | error e => exact ⟨.refl hmemory u.multiAsic, rfl⟩
  | ok plans =>
    obtain ⟨parts, hnodup, htargets, hsingle, hparts⟩ := Request.exists_parts hmemory hr hplans
    obtain ⟨s', hexecute, hdisk, hholds, hothers⟩ := execute_planFor hdry hmemory hnodup htargets hparts
    simp only [run, hexecute]
    exact ⟨keepsScopes_of_planFor hmemory hsingle hparts hholds hothers, hdisk⟩

/-- What may happen to a switch while the file of a checkpoint stays as it is: a request, whatever its outcome,
and anything on the disk that leaves the file as it is. -/
inductive HistoryStep (u : Updater) (path : String) : Switch → Switch → Prop
  | request (s : Switch) (r : Request) : r.WellFormed → HistoryStep u path s (r.run u s).2
  | disk (s : Switch) (disk : Disk) : disk.fileText path = s.disk.fileText path →
    HistoryStep u path s { s with disk }

/-- Any sequence of such steps. -/
abbrev History (u : Updater) (path : String) : Switch → Switch → Prop :=
  Relation.ReflTransGen (HistoryStep u path)

/-- The run: a history keeps the scopes and the file. -/
theorem History.keepsScopes (hdry : u.dryRun = false) (hmemory : s.InMemory) (h : History u path s s') :
    Switch.KeepsScopes u.multiAsic s s' ∧ s'.disk.fileText path = s.disk.fileText path := by
  induction h with
  | refl => exact ⟨.refl hmemory u.multiAsic, rfl⟩
  | tail _ hstep ih =>
    obtain ⟨hkeeps, htext⟩ := ih
    cases hstep with
    | request r hr =>
      obtain ⟨hrun, hdisk⟩ := keepsScopes_run hdry hkeeps.memory hr
      exact ⟨hkeeps.trans hrun, by rw [hdisk, htext]⟩
    | disk disk hdisk =>
      exact ⟨⟨hkeeps.memory, hkeeps.isSome, hkeeps.single⟩, hdisk.trans htext⟩

end Updater

end ConfigUpdate
