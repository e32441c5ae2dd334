import ConfigUpdate.Proofs.CheckpointMap
import ConfigUpdate.Proofs.Histories
import ConfigUpdate.Proofs.SplitPatches

/-!
# Going back to a checkpoint

A checkpoint is the object of the configurations of all scopes, or the configuration of the host. To split it
undoes that it was put together (`Scope.splitConfig_combined`), and what is read from its file is what was
written. So a rollback that succeeds gives every database the content that it had, whatever happened in
between, and one that is asked for at once finds nothing to do: `Updater.rollback_restores`.
-/

namespace ConfigUpdate

/-! ## Splitting what was put together -/

namespace Scope

variable {trees : Dictionary Scope Value}

/-- The members of the object are the configurations under the names of their scopes. -/
theorem mem_combined (hsorted : trees.Sorted) (hfit : AllFit trees) {name : String} {config : Value}
    (h : (name, config) ∈ Dictionary.ofList (named trees)) :
    ∃ scope, name = scope.name ∧ ofName? name = some scope ∧ trees.get? scope = some config := by
  have hget := Dictionary.get?_of_mem (Dictionary.sorted_ofList _) h
  rw [Dictionary.get?_ofList (nodup_named hsorted hfit)] at hget
  obtain ⟨⟨scope, tree⟩, htree, heq⟩ := List.mem_map.1 (Dictionary.mem_of_get? hget)
  cases heq
  exact ⟨scope, rfl, ofName?_name (hfit _ htree), Dictionary.get?_of_mem hsorted htree⟩

theorem wellFormed_combined (hwell : ∀ tree ∈ trees, tree.2.WellFormed) : (combined trees).WellFormed := by
  refine Value.wellFormed_ofList fun m hm => ?_
  obtain ⟨tree, htree, rfl⟩ := List.mem_map.1 hm
  exact hwell tree htree

theorem namedOnce_combined (hsorted : trees.Sorted) (hfit : AllFit trees) : NamedOnce (combined trees) := by
  intro ms hms a ha b hb scope hascope hbscope
  cases hms
  obtain ⟨scope', haname, hascope', -⟩ := mem_combined hsorted hfit ha
  obtain ⟨scope'', hbname, hbscope', -⟩ := mem_combined hsorted hfit hb
  have haeq := Option.some.inj (hascope'.symm.trans hascope)
  have hbeq := Option.some.inj (hbscope'.symm.trans hbscope)
  rw [haname, hbname, haeq, hbeq]

/-- The object of the configurations is split into the configurations. -/
theorem splitConfig_combined (hsorted : trees.Sorted) (hfit : AllFit trees)
    (hwell : ∀ tree ∈ trees, tree.2.WellFormed) : splitConfig true (combined trees) = .ok trees := by
  have hnames : ∀ m ∈ Dictionary.ofList (named trees), ∃ scope, ofName? m.1 = some scope := fun m hm =>
    (mem_combined hsorted hfit hm).imp fun _ hscope => hscope.2.1
  obtain ⟨parts, hparts⟩ := exists_splitInto hnames []
  have hsplit : splitConfig true (combined trees) = .ok parts := hparts
  have hget (scope : Scope) (config : Value) :
      parts.get? scope = some config ↔ trees.get? scope = some config := by
    rw [get?_splitConfig (wellFormed_combined hwell) (fun _ => namedOnce_combined hsorted hfit) hsplit]
    constructor
    · rintro ⟨ms, name, hms, hmem, hname⟩
      cases hms
      obtain ⟨scope', -, hname', htree⟩ := mem_combined hsorted hfit hmem
      rw [← Option.some.inj (hname'.symm.trans hname)]
      exact htree
    · intro htree
      have hscope : scope.Fits := hfit _ (Dictionary.mem_of_get? htree)
      refine ⟨_, scope.name, rfl, Dictionary.mem_of_get? ?_, ofName?_name hscope⟩
      rw [get?_combined hsorted hfit hscope, htree]
  rw [hsplit, Dictionary.ext_of_sorted (sorted_splitConfig hsplit) hsorted fun scope => Option.ext (hget scope)]

end Scope

/-! ## Snapshots -/

namespace Switch

variable {s : Switch}

/-- The configurations of databases in memory. -/
theorem exists_configs {dbs : Dictionary Scope Database} (h : ∀ e ∈ dbs, ∃ ts, e.2 = .memory ts) :
    ∃ trees : Dictionary Scope Value, s.configs dbs = .ok (Scope.named trees) ∧
      trees.map Prod.fst = dbs.map Prod.fst ∧
      ∀ scope tree, trees.get? scope = some tree ↔
        ∃ ts, Dictionary.get? dbs scope = some (.memory ts) ∧ tree = .object ts := by
  induction dbs with
  | nil => exact ⟨[], rfl, rfl, by simp⟩
  | cons e dbs ih =>
    obtain ⟨scope, db⟩ := e
    obtain ⟨⟨ts, rfl⟩, hrest⟩ := List.forall_mem_cons.1 h
    obtain ⟨trees, hconfigs, hkeys, hget⟩ := ih hrest
    have hconfig : s.configOf (.memory ts) = .ok (.object ts) := rfl
    refine ⟨(scope, .object ts) :: trees, ?_, by rw [List.map_cons, List.map_cons, hkeys],
      fun scope' tree => ?_⟩
    · simp [configs, hconfig, hconfigs, Scope.named, bind, Except.bind, pure, Except.pure]
    · by_cases hscope : scope = scope'
      · simp [Dictionary.get?, hscope, eq_comm]
      · simpa [Dictionary.get?, hscope] using hget scope' tree

end Switch

namespace Updater

variable {u : Updater} {s s₁ s₂ s' : Switch} {directory name : String} {config : Value}

/-- A snapshot is split into the configurations of which it was taken. -/
theorem split_snapshot (hmemory : s.InMemory) (hsorted : s.databases.Sorted)
    (hfits : ∀ e ∈ s.databases, e.1.Fits) (h : u.snapshot s = .ok config) :
    config.WellFormed ∧ config.isObject = true ∧
      ∃ parts : Dictionary Scope Value, Scope.splitConfig u.multiAsic config = .ok parts ∧
        ∀ scope tree, parts.get? scope = some tree ↔ (u.multiAsic = true ∨ scope = .host) ∧
          ∃ ts, Dictionary.get? s.databases scope = some (.memory ts) ∧ tree = .object ts := by
  cases hchips : u.multiAsic with
  | false =>
    have hhost : s.config .host = .ok config := by
      simpa only [snapshot, Switch.snapshot, hchips, Bool.false_eq_true, if_false] using h
    obtain ⟨ts, hdb, hwell, rfl⟩ := hmemory.exists_tables hhost
    refine ⟨hwell, rfl, [(.host, .object ts)], rfl, fun scope tree => ?_⟩
    by_cases hscope : scope = .host
    · simp [Dictionary.get?, hscope, hdb, eq_comm]
    · simp [Dictionary.get?, hscope, Ne.symm hscope]
  | true =>
    have hmem : ∀ e ∈ s.databases, ∃ ts, e.2 = .memory ts := fun e he =>
      (hmemory e.1 e.2 (Dictionary.get?_of_mem hsorted he)).imp fun _ hts => hts.1
    obtain ⟨trees, hconfigs, hkeys, hget⟩ := Switch.exists_configs (s := s) hmem
    have hconfig : config = Scope.combined trees := by
      simp only [snapshot, Switch.snapshot, hchips, if_true, hconfigs] at h
      exact (Except.ok.inj h).symm
    have htrees : trees.Sorted := by
      refine List.pairwise_map.1 (?_ : (trees.map Prod.fst).Pairwise (· < ·))
      rw [hkeys]
      exact List.pairwise_map.2 hsorted
    have hfit : Scope.AllFit trees := fun tree htree => by
      have hkey : tree.1 ∈ s.databases.map Prod.fst := hkeys ▸ List.mem_map_of_mem htree
      obtain ⟨e, he, heq⟩ := List.mem_map.1 hkey
      exact heq ▸ hfits e he
    have hwell : ∀ tree ∈ trees, tree.2.WellFormed := fun tree htree => by
      obtain ⟨ts, hdb, heq⟩ := (hget tree.1 tree.2).1 (Dictionary.get?_of_mem htrees htree)
      obtain ⟨ts', heq', hwell⟩ := hmemory _ _ hdb
      cases heq'
      exact heq ▸ hwell
    rw [hconfig]
    refine ⟨Scope.wellFormed_combined hwell, rfl, trees, Scope.splitConfig_combined htrees hfit hwell,
      fun scope tree => ?_⟩
    rw [hget]
    simp

/-! ## The rollback -/

/-- A replacement that succeeds leaves every part in its scope, and touches no other scope. -/
theorem holds_of_replace {target : Value} {report : UpdateReport} {parts : Dictionary Scope Value}
    (hdry : u.dryRun = false) (hmemory : s.InMemory) (htarget : target.WellFormed)
    (hparts : Scope.splitConfig u.multiAsic target = .ok parts) (h : u.replace target s = (.ok report, s')) :
    (∀ part ∈ parts, s'.Holds part.1 part.2) ∧ ∀ scope, scope ∉ parts.map Prod.fst →
      Dictionary.get? s'.databases scope = Dictionary.get? s.databases scope := by
  cases hplans : u.planReplace s target with
  | error e => simp [replace, run, hplans] at h
  | ok plans =>
    have hplanTargets : u.planTargets s parts = .ok plans := by
      simp only [planReplace, hparts] at hplans
      exact hplans
    obtain ⟨s₁, hexecute, -, hholds, hothers⟩ := execute_planned hdry hmemory
      (Scope.sorted_splitConfig hparts).nodup_keys (Scope.wellFormed_of_mem_splitConfig htarget hparts)
      (planned_of_planTargets hplanTargets)
    simp only [replace, run, hplans, hexecute, Except.map, Prod.mk.injEq] at h
    obtain ⟨-, rfl⟩ := h
    exact ⟨hholds, hothers⟩

/-- What a checkpoint is made of: a snapshot, written into a file. -/
theorem createCheckpoint_eq_ok (h : u.createCheckpoint directory name s = .ok s₁) :
    ∃ config made, u.snapshot s = .ok config ∧ Checkpoint.isName name = true ∧ s₁.databases = s.databases ∧
      s.disk.createDirectories directory = .ok made ∧
      made.writeFile (Checkpoint.filePath directory name) (Json.pretty config) = .ok s₁.disk := by
  obtain ⟨config, hconfig, h⟩ := exists_of_bind_eq_ok h
  obtain ⟨⟨path, disk⟩, hcreate, h⟩ := exists_of_bind_eq_ok h
  cases h
  obtain ⟨hname, made, hmade, hwrite⟩ := Checkpoint.create_eq_ok hcreate
  exact ⟨config, made, hconfig, hname, rfl, hmade, hwrite⟩

/-- A rollback to a checkpoint gives every database the content that it had when the checkpoint was made,
whatever happened since, if the file of the checkpoint was left alone. A rollback at once has nothing to do. -/
theorem rollback_restores (hdry : u.dryRun = false) (hmemory : s.InMemory) (hsorted : s.databases.Sorted)
    (hfits : ∀ e ∈ s.databases, e.1.Fits) (hcreate : u.createCheckpoint directory name s = .ok s₁)
    (hsnapshot : ∀ config, u.snapshot s = .ok config → config.depth ≤ Json.depthLimit ∧ config.Integral) :
    (∀ s₂ s₃ report, History u (Checkpoint.filePath directory name) s₁ s₂ →
        u.rollback directory name s₂ = (.ok report, s₃) →
        ∀ scope, Dictionary.get? s₃.databases scope = Dictionary.get? s.databases scope) ∧
      ∃ again, u.rollback directory name s₁ = (.ok again, s₁) ∧
        ∀ r ∈ again.scopes, r.moves = [] ∧ r.committed = 0 := by
  obtain ⟨config, made, hconfig, hname, hdatabases, -, hwrite⟩ := createCheckpoint_eq_ok hcreate
  have htext := Disk.fileText_writeFile hwrite
  obtain ⟨hwell, hobject, parts, hparts, hget⟩ := split_snapshot hmemory hsorted hfits hconfig
  obtain ⟨hdepth, hintegral⟩ := hsnapshot config hconfig
  have hload {s₂ : Switch} (hfile : s₂.disk.fileText (Checkpoint.filePath directory name)
      = .ok (Json.pretty config)) : u.rollback directory name s₂ = u.replace config s₂ := by
    simp only [rollback, Checkpoint.load_stored hname ⟨hwell, hintegral, hdepth⟩ hobject hfile]
  have hmemory₁ : s₁.InMemory := by
    intro scope db hdb
    rw [hdatabases] at hdb
    exact hmemory scope db hdb
  constructor
  · intro s₂ s₃ report hhistory hrollback scope
    obtain ⟨hkeeps, hfile⟩ := hhistory.keepsScopes hdry hmemory₁
    rw [hload (hfile.trans htext)] at hrollback
    obtain ⟨hholds, hothers⟩ := holds_of_replace hdry hkeeps.memory hwell hparts hrollback
    by_cases hpart : scope ∈ parts.map Prod.fst
    · obtain ⟨part, hmem, rfl⟩ := List.mem_map.1 hpart
      obtain ⟨-, ts, hdb, htree⟩ := (hget part.1 part.2).1
        (Dictionary.get?_of_mem (Scope.sorted_splitConfig hparts) hmem)
      obtain ⟨ts', hdb', -, hsame⟩ := hholds part hmem
      -- The part has no doubles, so nothing but itself equals it.
      have heq := (Scope.integral_of_mem_splitConfig hintegral hparts part hmem).eq_of_same
        (Value.same_symm hsame)
      rw [htree] at heq
      cases heq
      rw [hdb, hdb']
    · rw [hothers scope hpart]
      by_cases hscope : u.multiAsic = true ∨ scope = .host
      · -- The scope had no database, so it has none.
        have hnone : Dictionary.get? s.databases scope = none := by
          cases hdb : Dictionary.get? s.databases scope with
          | none => rfl
          | some db =>
            obtain ⟨ts, rfl, -⟩ := hmemory scope db hdb
            have htree := (hget scope (.object ts)).2 ⟨hscope, ts, hdb, rfl⟩
            exact absurd (List.mem_map_of_mem (Dictionary.mem_of_get? htree)) hpart
        have hstill := hkeeps.isSome scope
        rw [hdatabases, hnone] at hstill
        rw [hnone]
        exact Option.not_isSome_iff_eq_none.1 (by simp [hstill])
      · obtain ⟨hchips, hhost⟩ := not_or.1 hscope
        rw [hkeeps.single (by simpa using hchips) scope hhost, hdatabases]
  · rw [hload htext]
    refine replace_of_holds hparts fun part hmem => ?_
    obtain ⟨-, ts, hdb, htree⟩ := (hget part.1 part.2).1
      (Dictionary.get?_of_mem (Scope.sorted_splitConfig hparts) hmem)
    obtain ⟨ts', heq, hts⟩ := hmemory part.1 _ hdb
    cases heq
    exact ⟨ts, by rw [hdatabases, hdb], hts, by rw [htree]; exact Value.same_refl _⟩

/-! ## Back to a chip without VLANs -/

/-- The configuration of the chip. -/
def noVlan : Value := .object [("VLAN", .empty)]

/-- The configuration of the host. -/
def hostPort : Value := .object [("PORT", .object [("Ethernet0", .empty)])]

/-- The configurations of both. -/
def beforeVlan : Value := .object [("asic0", noVlan), ("localhost", hostPort)]

/-- The disk with the checkpoint of them. -/
def savedDisk : Disk :=
  ((Disk.blank []).put ["cps"] .directory).put ["cps", "before.cp.json"] (.file (Json.pretty beforeVlan))

/-- The switch when the checkpoint has been made. -/
def savedChip : Switch := ⟨portAndChip.databases, savedDisk⟩

/-- The switch when the VLAN has been added since. -/
def savedVlan : Switch := ⟨portAndVlan.databases, savedDisk⟩

/-- The removal of the VLAN. -/
def dropChipVlan : Move := .remove (.ofNames ["VLAN", "Vlan10"]) .empty

/-- The report about the removal, with nothing to do on the host. -/
def dropReport : UpdateReport := ⟨false, [⟨.host, [], 0⟩, ⟨.asic 0, [dropChipVlan.toOperation], 1⟩]⟩

theorem createCheckpoint_chip : chipUpdater.createCheckpoint "cps" "before" portAndChip = .ok savedChip :=
  rfl

theorem history_chip : History chipUpdater (Checkpoint.filePath "cps" "before") savedChip savedVlan := by
  have hsplit : Scope.splitConfig chipUpdater.multiAsic chipTarget = .ok [(.asic 0, chipVlan)] := rfl
  have hconfig : savedChip.config (.asic 0) = .ok (.object [("VLAN", .empty)]) := rfl
  have hobject : chipVlan.isObject = true := rfl
  have hplan := planScope_chip (show chipUpdater.gate.checkOperations (.asic 0) [] = .ok () from rfl)
  have hplans : chipUpdater.planReplace savedChip chipTarget = .ok [⟨.asic 0, [Problem.addVlan]⟩] := by
    simp [planReplace, hsplit, planTargets, hobject, hconfig, hplan, bind, Except.bind, pure, Except.pure]
  have hrun : ((Request.replace chipTarget).run chipUpdater savedChip).2 = savedVlan := by
    rw [Request.run, replace, hplans]
    rfl
  rw [← hrun]
  exact .single (.request savedChip (.replace chipTarget) (show chipTarget.WellFormed by decide))

theorem planScope_dropChipVlan :
    chipUpdater.planScope (.asic 0) chipVlan noVlan [] = .ok [dropChipVlan] := by
  have hdiff : diff chipVlan noVlan = [dropChipVlan] := rfl
  have hsort : (Problem.mk chipUpdater.oracle [dropChipVlan] chipUpdater.budget
      chipUpdater.fingerprint).sort chipVlan = .ok [dropChipVlan] :=
    sort_single rfl rfl rfl Nat.one_pos (by decide)
  simp only [planScope, hdiff, hsort]
  rfl

theorem rollback_chip : chipUpdater.rollback "cps" "before" savedVlan = (.ok dropReport, savedChip) := by
  have hload : Checkpoint.load "cps" "before" savedVlan.disk = .ok beforeVlan :=
    Checkpoint.load_stored (by decide) ⟨by decide, by decide, by decide⟩ rfl rfl
  have hsplit : Scope.splitConfig chipUpdater.multiAsic beforeVlan
      = .ok [(.host, hostPort), (.asic 0, noVlan)] := rfl
  have hhost : savedVlan.config .host = .ok hostPort := rfl
  have hchip : savedVlan.config (.asic 0) = .ok chipVlan := rfl
  have hhostObject : hostPort.isObject = true := rfl
  have hchipObject : noVlan.isObject = true := rfl
  have hidle : chipUpdater.planScope .host hostPort hostPort [] = .ok [] := rfl
  have hplans : chipUpdater.planReplace savedVlan beforeVlan
      = .ok [⟨.host, []⟩, ⟨.asic 0, [dropChipVlan]⟩] := by
    simp [planReplace, hsplit, planTargets, hhostObject, hchipObject, hhost, hchip, hidle,
      planScope_dropChipVlan, bind, Except.bind, pure, Except.pure]
  rw [rollback, hload]
  simp only [replace, hplans]
  rfl

theorem rollback_restores_chip :
    chipUpdater.createCheckpoint "cps" "before" portAndChip = .ok savedChip ∧
      History chipUpdater (Checkpoint.filePath "cps" "before") savedChip savedVlan ∧
      chipUpdater.rollback "cps" "before" savedVlan = (.ok dropReport, savedChip) ∧
      (∀ scope, Dictionary.get? savedChip.databases scope = Dictionary.get? portAndChip.databases scope) ∧
      ∃ again, chipUpdater.rollback "cps" "before" savedChip = (.ok again, savedChip) ∧
        ∀ r ∈ again.scopes, r.moves = [] ∧ r.committed = 0 := by
  have hsorted : portAndChip.databases.Sorted :=
    .cons (List.forall_mem_singleton.2 trivial) (List.pairwise_singleton _ _)
  have hfits : ∀ e ∈ portAndChip.databases, e.1.Fits := by
    simp only [portAndChip, List.forall_mem_cons]
    exact ⟨trivial, show 0 < Scope.idBound by decide, List.forall_mem_nil _⟩
  have hsnapshot : ∀ config, chipUpdater.snapshot portAndChip = .ok config →
      config.depth ≤ Json.depthLimit ∧ config.Integral := by
    intro config hconfig
    cases (show Except.ok beforeVlan = .ok config from hconfig)
    exact ⟨by decide, by decide⟩
  obtain ⟨hback, hagain⟩ := rollback_restores rfl inMemory_portAndChip hsorted hfits createCheckpoint_chip
    hsnapshot
  exact ⟨createCheckpoint_chip, history_chip, rollback_chip,
    hback savedVlan savedChip dropReport history_chip rollback_chip, hagain⟩

end Updater

end ConfigUpdate
