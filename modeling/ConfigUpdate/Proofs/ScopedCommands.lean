import ConfigUpdate.CommandLine.Run
import ConfigUpdate.Proofs.FileUpdates
import ConfigUpdate.Proofs.PatchGroups
import ConfigUpdate.Proofs.Rollback

/-!
# Commands within a scope

A command that is restricted to a scope leaves the configurations of the other scopes alone, since every
plan that it makes is for that scope: `CommandLine.runCommand_confined`. The exception is the rollback, which
runs as if no scope had been named, and so changes what it was told to leave alone
(`CommandLine.exists_rollback_outside_scope`).
-/

namespace ConfigUpdate

/-! ## Requests within a scope -/

namespace Updater

variable {u : Updater} {s : Switch} {scope : Scope} {plans : List ScopePlan}

/-- A patch within a scope has plans for this scope alone. -/
theorem scope_of_planPatch (hchips : u.multiAsic = true) (hfits : scope.Fits) {ops : List Operation}
    (h : u.planPatch s (ops.map (Operation.prefixed scope)) = .ok plans) :
    ∀ plan ∈ plans, plan.scope = scope := by
  obtain ⟨groups, hgroups, hplans⟩ := exists_of_bind_eq_ok h
  rw [hchips, Scope.splitOperations_prefixed hfits] at hgroups
  cases hgroups
  rw [planGroups_eq_mapM] at hplans
  intro plan hplan
  obtain ⟨group, hgroup, hplan⟩ := exists_mem_of_forall₂ (forall₂_of_mapM hplans) hplan
  obtain ⟨-, -, -, -, hscope, -⟩ := groupPlan_eq_ok hplan
  split at hgroup
  · cases hgroup
  · rw [hscope, List.mem_singleton.1 hgroup]

/-- A replacement within a scope has a plan for this scope alone. -/
theorem scope_of_planReplace (hchips : u.multiAsic = true) (hfits : scope.Fits) {config : Value}
    (h : u.planReplace s (Scope.wrapConfig scope config) = .ok plans) : ∀ plan ∈ plans, plan.scope = scope := by
  obtain ⟨parts, hparts, hplans⟩ := exists_of_bind_eq_ok h
  rw [hchips, Scope.splitConfig_wrapConfig hfits] at hparts
  cases hparts
  rw [planTargets_eq_mapM] at hplans
  intro plan hplan
  obtain ⟨part, hpart, hplan⟩ := exists_mem_of_forall₂ (forall₂_of_mapM hplans) hplan
  obtain ⟨-, -, hscope⟩ := targetPlan_eq_ok hplan
  rw [hscope, List.mem_singleton.1 hpart]

end Updater

/-! ## Setting up -/

namespace CommandLine

variable {s : Settings} {disk disk' : Disk} {dryRun : Bool} {u : Updater} {switch : Switch}
  {scope other : Scope}

/-- Every scope has its configuration in its file, and the file could be read. -/
theorem openFiles_eq_ok {scopes : List Scope} {dbs : Dictionary Scope Database}
    (h : openFiles s disk scopes = .ok dbs) :
    (∀ scope ∈ scopes, ∃ text, disk.fileText (s.configPath scope) = .ok text) ∧
      ∀ scope db, Dictionary.get? dbs scope = some db → db = .file (s.configPath scope) := by
  induction scopes generalizing dbs with
  | nil =>
    cases h
    exact ⟨List.forall_mem_nil _, nofun⟩
  | cons scope scopes ih =>
    unfold openFiles at h
    dsimp only at h
    split at h
    · cases h
    · rename_i tree htree
      obtain ⟨rest, hrest, h⟩ := exists_of_bind_eq_ok h
      cases h
      obtain ⟨htexts, hfiles⟩ := ih hrest
      refine ⟨List.forall_mem_cons.2 ⟨?_, htexts⟩, fun scope' db hdb => ?_⟩
      · unfold Disk.readTree at htree
        split at htree
        · cases htree
        · exact ⟨_, by assumption⟩
      · rw [Dictionary.get?_insert] at hdb
        split at hdb
        · rename_i heq
          cases hdb
          rw [heq]
        · exact hfiles scope' db hdb

theorem setUp_eq_ok (h : setUp s dryRun disk = .ok (u, switch)) :
    u.multiAsic = s.multiAsic ∧ u.dryRun = dryRun ∧ switch.disk = disk ∧
      (∀ scope ∈ s.scopes, ∃ text, disk.fileText (s.configPath scope) = .ok text) ∧
      ∀ scope, switch.InFile scope (s.configPath scope) := by
  obtain ⟨opened, hopened, h⟩ := exists_of_bind_eq_ok h
  obtain ⟨platform, -, h⟩ := exists_of_bind_eq_ok h
  obtain ⟨rules, -, h⟩ := exists_of_bind_eq_ok h
  cases h
  unfold openSwitch at hopened
  split at hopened
  · cases hopened
  · obtain ⟨dbs, hdbs, hopened⟩ := exists_of_bind_eq_ok hopened
    cases hopened
    obtain ⟨htexts, hfiles⟩ := openFiles_eq_ok hdbs
    exact ⟨rfl, rfl, rfl, htexts, hfiles⟩

/-! ## Commands -/

/-- An update of which every plan is for a scope changes only the file of this scope. -/
theorem onlyFile_runUpdate {f : Updater → Switch → Except UpdateError UpdateReport × Switch}
    (hf : ∀ (u : Updater) (switch : Switch), u.multiAsic = s.multiAsic →
      switch.InFile scope (s.configPath scope) →
      switch.disk.OnlyFile (s.configPath scope) (f u switch).2.disk) :
    disk.OnlyFile (s.configPath scope) (runUpdate s dryRun disk f).2 := by
  unfold runUpdate
  split
  · exact .refl _ disk
  · rename_i u switch hsetUp
    obtain ⟨hchips, -, rfl, -, hfiles⟩ := setUp_eq_ok hsetUp
    exact hf u switch hchips (hfiles scope)

/-- The file of another scope is at a place of its own: it is not the file of the scope, nor that of a
checkpoint that the command makes or deletes. -/
def Apart (s : Settings) (command : Command) (scope other : Scope) (disk : Disk) : Prop :=
  (∀ place, disk.Leads (s.configPath scope) place → ¬ disk.Leads (s.configPath other) place) ∧
    ∀ name, command = .createCheckpoint name ∨ command = .deleteCheckpoint name → ∀ place,
      disk.Leads (Checkpoint.filePath s.checkpointDirectory name) place →
      ¬ disk.Leads (s.configPath other) place

/-- A change of one file that is apart from another one. -/
theorem toOption_fileText_of_onlyFile {path otherPath : String} (h : disk.OnlyFile path disk')
    (hapart : ∀ place, disk'.Leads path place → ¬ disk'.Leads otherPath place) :
    (disk'.fileText otherPath).toOption = (disk.fileText otherPath).toOption :=
  h.toOption_fileText fun place hpath hother => hapart place (h.leads_iff.2 hpath) (h.leads_iff.2 hother)

/-- A checkpoint that is made is a file that is written, once the directories on the way to it are there. -/
theorem runCreate_cases (s : Settings) (dryRun : Bool) (disk : Disk) (name : String) :
    (∃ e, runCreate s dryRun disk name = (.error e, disk)) ∨
      ∃ output later made text, runCreate s dryRun disk name = (.ok output, later) ∧
        (∀ scope ∈ s.scopes, ∃ text, disk.fileText (s.configPath scope) = .ok text) ∧ Disk.Grows disk made ∧
        made.writeFile (Checkpoint.filePath s.checkpointDirectory name) text = .ok later := by
  unfold runCreate
  split
  · exact .inl ⟨_, rfl⟩
  · rename_i u switch hsetUp
    obtain ⟨-, -, rfl, htexts, -⟩ := setUp_eq_ok hsetUp
    split
    · exact .inl ⟨_, rfl⟩
    · rename_i later hcreate
      obtain ⟨config, made, -, -, -, hmade, hwrite⟩ := Updater.createCheckpoint_eq_ok hcreate
      obtain ⟨here, names, hway⟩ := Disk.exists_createWay hmade
      exact .inr ⟨_, later.disk, made, Json.pretty config, rfl, htexts, Disk.grows_createWay hway, hwrite⟩

theorem runDelete_cases (s : Settings) (disk : Disk) (name : String) :
    (∃ e, runDelete s disk name = (.error e, disk)) ∨
      ∃ output later, runDelete s disk name = (.ok output, later) ∧
        disk.removeFile (Checkpoint.filePath s.checkpointDirectory name) = .ok later := by
  unfold runDelete
  split
  · exact .inl ⟨_, rfl⟩
  · rename_i later hdelete
    obtain ⟨⟨⟩, -, hdelete⟩ := exists_of_bind_eq_ok hdelete
    split at hdelete
    · rename_i removed hremove
      cases hdelete
      exact .inr ⟨_, later, rfl, hremove⟩
    · cases hdelete

/-- A checkpoint that is made leaves the file of a scope alone, if it is not the file of the checkpoint. -/
theorem toOption_fileText_runCreate {name : String} (hother : other ∈ s.scopes)
    (hapart : ∀ place,
      (runCreate s dryRun disk name).2.Leads (Checkpoint.filePath s.checkpointDirectory name) place →
      ¬ (runCreate s dryRun disk name).2.Leads (s.configPath other) place) :
    ((runCreate s dryRun disk name).2.fileText (s.configPath other)).toOption =
      (disk.fileText (s.configPath other)).toOption := by
  obtain ⟨e, he⟩ | ⟨output, later, made, written, hrun, htexts, hgrows, hwrite⟩ :=
    runCreate_cases s dryRun disk name
  · rw [he]
  · rw [hrun] at hapart ⊢
    obtain ⟨text, htext⟩ := htexts other hother
    -- The file is there before the directory is made, and so it is there afterwards.
    obtain ⟨place, hplace, hasks, hnode⟩ := Disk.fileText_eq_ok_iff.1 htext
    have hmadeText : made.fileText (s.configPath other) = .ok text := Disk.fileText_eq_ok_iff.2
      ⟨place, hplace.keep hgrows.keepsDirectories, hasks, (hgrows.file_iff place text).2 hnode⟩
    rw [toOption_fileText_of_onlyFile (Disk.onlyFile_writeFile hwrite) hapart, hmadeText, htext]

theorem toOption_fileText_runDelete {name : String}
    (hapart : ∀ place, (runDelete s disk name).2.Leads (Checkpoint.filePath s.checkpointDirectory name) place →
      ¬ (runDelete s disk name).2.Leads (s.configPath other) place) :
    ((runDelete s disk name).2.fileText (s.configPath other)).toOption =
      (disk.fileText (s.configPath other)).toOption := by
  obtain ⟨e, he⟩ | ⟨output, later, hrun, hremove⟩ := runDelete_cases s disk name
  · rw [he]
  · rw [hrun] at hapart ⊢
    exact toOption_fileText_of_onlyFile (Disk.onlyFile_removeFile hremove) hapart

theorem scopeOf_some {name : String} (hname : Scope.ofName? name = some scope) :
    (s.multiAsic = true ∧ scopeOf s (some name) = .ok (some scope)) ∨
      (s.multiAsic = false ∧ scopeOf s (some name) = .error .noScopes) := by
  have hparse : Scope.parse name = .ok scope := Scope.parse_eq_ok_iff.2 hname
  cases hchips : s.multiAsic with
  | true =>
    refine .inl ⟨rfl, ?_⟩
    simp only [scopeOf, hparse, ofUpdate, hchips]
    rfl
  | false =>
    refine .inr ⟨rfl, ?_⟩
    simp only [scopeOf, hparse, ofUpdate, hchips]
    rfl

/-- A patch within a scope changes only the file of the scope. -/
theorem onlyFile_patch (hchips : s.multiAsic = true) (hfits : scope.Fits) (path : String) :
    disk.OnlyFile (s.configPath scope) (runIn s dryRun (some scope) disk (.applyPatch path)).2 := by
  simp only [runIn]
  split
  · exact .refl _ disk
  · rename_i ops hops
    obtain ⟨text, -, hops⟩ := exists_of_bind_eq_ok hops
    obtain ⟨given, -, hops⟩ := exists_of_bind_eq_ok hops
    cases hops
    refine onlyFile_runUpdate fun u switch hu hfile => ?_
    have hplans (plans : List ScopePlan)
        (h : u.planPatch switch (given.map (Operation.prefixed scope)) = .ok plans) :
        ∀ plan ∈ plans, plan.scope = scope := Updater.scope_of_planPatch (hu.trans hchips) hfits h
    exact Updater.onlyFile_run hplans hfile

/-- A replacement within a scope changes only the file of the scope. -/
theorem onlyFile_replace (hchips : s.multiAsic = true) (hfits : scope.Fits) (path : String) :
    disk.OnlyFile (s.configPath scope) (runIn s dryRun (some scope) disk (.replace path)).2 := by
  simp only [runIn]
  split
  · exact .refl _ disk
  · rename_i target htarget
    obtain ⟨text, -, htarget⟩ := exists_of_bind_eq_ok htarget
    split at htarget
    · cases htarget
    · rename_i config _
      cases htarget
      refine onlyFile_runUpdate fun u switch hu hfile => ?_
      have hplans (plans : List ScopePlan)
          (h : u.planReplace switch (Scope.wrapConfig scope config) = .ok plans) :
          ∀ plan ∈ plans, plan.scope = scope := Updater.scope_of_planReplace (hu.trans hchips) hfits h
      exact Updater.onlyFile_run hplans hfile

/-- An update that is not to be written leaves the disk as it is. -/
theorem disk_runUpdate_dryRun {f : Updater → Switch → Except UpdateError UpdateReport × Switch}
    (hf : ∀ (u : Updater) (switch : Switch), u.dryRun = true → (f u switch).2 = switch) :
    (runUpdate s true disk f).2 = disk := by
  unfold runUpdate
  split
  · rfl
  · rename_i u switch hsetUp
    obtain ⟨-, hdry, rfl, -, -⟩ := setUp_eq_ok hsetUp
    exact congrArg Switch.disk (hf u switch hdry)

theorem disk_rollback_dryRun (scope : Option Scope) (checkpoint : String) :
    (runIn s true scope disk (.rollback checkpoint)).2 = disk :=
  disk_runUpdate_dryRun fun _ switch hdry => Updater.rollback_dryRun hdry _ checkpoint switch

/-- Within a scope every command leaves the configurations of the other scopes as they are, whether it succeeds
or fails, unless it is a rollback that is no dry run. A rollback runs as if no scope had been named. -/
theorem runCommand_confined (s : Settings) (i : Invocation) (disk : Disk) {name : String} {scope : Scope}
    (hscope : i.scope = some name) (hname : Scope.ofName? name = some scope) :
    ((∀ checkpoint, i.command = .rollback checkpoint → i.dryRun = true) → ∀ other ∈ s.scopes,
        Apart s i.command scope other (runCommand s i disk).2 →
        ((runCommand s i disk).2.fileText (s.configPath other)).toOption =
          (disk.fileText (s.configPath other)).toOption) ∧
      ∀ checkpoint, i.command = .rollback checkpoint → s.multiAsic = true →
        runCommand s i disk = runCommand s { i with scope := none } disk := by
  have hfits := (Scope.ofName?_eq_some_iff.1 hname).fits
  obtain ⟨hchips, hscopeOf⟩ | ⟨hsingle, hscopeOf⟩ := scopeOf_some (s := s) hname
  · have hrun : runCommand s i disk = runIn s i.dryRun (some scope) disk i.command := by
      simp only [runCommand, hscope, hscopeOf]
    constructor
    · intro hcommand other hother hapart
      rw [hrun] at hapart ⊢
      cases hcmd : i.command with
      | applyPatch path =>
        rw [hcmd] at hapart
        exact toOption_fileText_of_onlyFile (onlyFile_patch hchips hfits path) hapart.1
      | replace path =>
        rw [hcmd] at hapart
        exact toOption_fileText_of_onlyFile (onlyFile_replace hchips hfits path) hapart.1
      | rollback checkpoint => rw [hcommand checkpoint hcmd, disk_rollback_dryRun]
      | createCheckpoint checkpoint =>
        rw [hcmd] at hapart
        exact toOption_fileText_runCreate hother (hapart.2 checkpoint (.inl rfl))
      | deleteCheckpoint checkpoint =>
        rw [hcmd] at hapart
        exact toOption_fileText_runDelete (hapart.2 checkpoint (.inr rfl))
      | listCheckpoints => rfl
      | diff path => rfl
    · intro checkpoint hcmd _
      rw [hrun, hcmd]
      simp only [runCommand, scopeOf, runIn]
  · have hrun : runCommand s i disk = (.error .noScopes, disk) := by
      simp only [runCommand, hscope, hscopeOf]
    exact ⟨fun _ other _ _ => by rw [hrun], fun _ _ hchips => nomatch hsingle.symm.trans hchips⟩

/-! ## A switch with one chip -/

/-- The settings of a switch with one chip. -/
def oneChip : Settings where
  store := { configPath := "config_db.json" }
  multiAsic := true
  namespaces := [{ name := "asic0" }]
  versionPath := "version.yml"
  checkpointDirectory := "cps"

def emptyText : String := Json.pretty .empty

/-- A configuration of one table, in which nothing stands. -/
def oneTable : Value := .object [("VLAN", .empty)]

/-- The checkpoint, in which the host has the table. -/
def hostBefore : Value := .object [("asic0", .empty), ("localhost", oneTable)]

/-- The disk of the switch, on which the host and the chip have no table. -/
def chipDisk : Disk :=
  ((((((Disk.blank []).put ["config_db.json"] (.file emptyText)).put ["config_db0.json"] (.file emptyText)).put
    ["version.yml"] (.file emptyText)).put ["target.json"] (.file (Json.pretty oneTable))).put ["cps"]
    .directory).put ["cps", "before.cp.json"] (.file (Json.pretty hostBefore))

/-- The disk when the host has the table. -/
def hostTableDisk : Disk := chipDisk.put ["config_db.json"] (.file (Json.pretty oneTable ++ "\n"))

/-- The disk when the chip has the table. -/
def chipTableDisk : Disk := chipDisk.put ["config_db0.json"] (.file (Json.pretty oneTable ++ "\n"))

/-- A command that is restricted to the chip. -/
def onChip (command : Command) : Invocation := ⟨"gcu.toml", none, false, some "asic0", command⟩

def addTable : Move := .add (.ofNames ["VLAN"]) .empty

def chipUpdater : Updater :=
  { gate := ⟨⟨"", "", "", false⟩, RuleBook.builtin, DeviceState.ofFiles chipDisk (stateFiles oneChip)⟩
    oracle := ReferenceRules.switch.oracle
    budget := oneChip.budget
    fingerprint := SearchState.fingerprint
    multiAsic := true
    dryRun := false }

def chipSwitch : Switch := ⟨[(.host, .file "config_db.json"), (.asic 0, .file "config_db0.json")], chipDisk⟩

theorem setUp_oneChip : setUp oneChip false chipDisk = .ok (chipUpdater, chipSwitch) := by
  have hopen : openSwitch oneChip chipDisk = .ok chipSwitch := rfl
  have hdetect : Platform.detect chipDisk oneChip.versionPath Database.store
      (.file (oneChip.configPath .host), chipDisk) oneChip.chassis = .ok ⟨"", "", "", false⟩ := by
    have htext : chipDisk.fileText oneChip.versionPath = .ok emptyText := rfl
    have hversion : Yaml.parse? emptyText = some (.mapping []) := by cbv
    simp only [Platform.detect, Platform.readVersion, htext, hversion]
    rfl
  have hrules : readRules oneChip chipDisk = .ok RuleBook.builtin := rfl
  simp only [setUp, hopen, hdetect, hrules]
  rfl

theorem disk_runUpdate {f : Updater → Switch → Except UpdateError UpdateReport × Switch}
    (h : setUp s dryRun disk = .ok (u, switch)) : (runUpdate s dryRun disk f).2 = (f u switch).2.disk := by
  simp only [runUpdate, h]

theorem runCommand_onChip (command : Command) :
    runCommand oneChip (onChip command) chipDisk = runIn oneChip false (some (.asic 0)) chipDisk command := by
  have hscope : scopeOf oneChip (onChip command).scope = .ok (some (.asic 0)) := rfl
  simp only [runCommand, hscope]
  rfl

theorem planScope_addTable (scope : Scope) :
    chipUpdater.planScope scope .empty oneTable [] = .ok [addTable] := by
  have hdiff : diff .empty oneTable = [addTable] := rfl
  have hprint : SearchState.fingerprint ⟨.empty, [0]⟩ ≠ SearchState.fingerprint ⟨oneTable, []⟩ := by
    decide +kernel
  have hsort : (Problem.mk chipUpdater.oracle [addTable] chipUpdater.budget chipUpdater.fingerprint).sort .empty
      = .ok [addTable] := Updater.sort_single rfl rfl rfl (by decide) hprint
  simp only [Updater.planScope, hdiff, hsort]
  rfl

/-- The replacement within the chip gives it the table. -/
theorem runCommand_replace_oneTable :
    (runCommand oneChip (onChip (.replace "target.json")) chipDisk).2 = chipTableDisk := by
  have htarget : readTarget chipDisk "target.json" (some (.asic 0))
      = .ok (Scope.wrapConfig (.asic 0) oneTable) := rfl
  have hsplit : Scope.splitConfig chipUpdater.multiAsic (Scope.wrapConfig (.asic 0) oneTable)
      = .ok [(.asic 0, oneTable)] := rfl
  have hchip : chipSwitch.config (.asic 0) = .ok .empty := rfl
  have hobject : oneTable.isObject = true := rfl
  have hplans : chipUpdater.planReplace chipSwitch (Scope.wrapConfig (.asic 0) oneTable)
      = .ok [⟨.asic 0, [addTable]⟩] := by
    simp [Updater.planReplace, hsplit, Updater.planTargets, hobject, hchip, planScope_addTable, bind,
      Except.bind, pure, Except.pure]
  have hreplace : (chipUpdater.replace (Scope.wrapConfig (.asic 0) oneTable) chipSwitch).2.disk
      = chipTableDisk := by
    simp only [Updater.replace, hplans]
    rfl
  simp only [runCommand_onChip, runIn, htarget]
  rw [disk_runUpdate setUp_oneChip, hreplace]

/-- The rollback within the chip gives the host the table. -/
theorem runCommand_rollback_hostBefore :
    (runCommand oneChip (onChip (.rollback "before")) chipDisk).2 = hostTableDisk := by
  have hload : Checkpoint.load "cps" "before" chipSwitch.disk = .ok hostBefore :=
    Checkpoint.load_stored (by decide) ⟨by decide, by decide, by decide⟩ rfl rfl
  have hsplit : Scope.splitConfig chipUpdater.multiAsic hostBefore
      = .ok [(.host, oneTable), (.asic 0, .empty)] := rfl
  have hhost : chipSwitch.config .host = .ok .empty := rfl
  have hchip : chipSwitch.config (.asic 0) = .ok .empty := rfl
  have hhostObject : oneTable.isObject = true := rfl
  have hchipObject : Value.empty.isObject = true := rfl
  have hidle : chipUpdater.planScope (.asic 0) .empty .empty [] = .ok [] := rfl
  have hplans : chipUpdater.planReplace chipSwitch hostBefore = .ok [⟨.host, [addTable]⟩, ⟨.asic 0, []⟩] := by
    simp [Updater.planReplace, hsplit, Updater.planTargets, hhostObject, hchipObject, hhost, hchip, hidle,
      planScope_addTable, bind, Except.bind, pure, Except.pure]
  have hrollback : (chipUpdater.rollback "cps" "before" chipSwitch).2.disk = hostTableDisk := by
    rw [Updater.rollback, hload]
    simp only [Updater.replace, hplans]
    rfl
  have hdirectory : oneChip.checkpointDirectory = "cps" := rfl
  simp only [runCommand_onChip, runIn]
  rw [disk_runUpdate setUp_oneChip, hdirectory, hrollback]

/-- The configurations of the host and of the chip are in two files. -/
theorem apart_oneChip {command : Command} (hcreate : ∀ name, command ≠ .createCheckpoint name)
    (hdelete : ∀ name, command ≠ .deleteCheckpoint name)
    (hchip : disk.Leads "config_db0.json" ["config_db0.json"])
    (hhost : disk.Leads "config_db.json" ["config_db.json"]) :
    Apart oneChip command (.asic 0) .host disk := by
  refine ⟨fun place hplace hother => ?_, fun name hname => ?_⟩
  · have hsame : ["config_db0.json"] = ["config_db.json"] :=
      (hchip.unique hplace).trans (hother.unique hhost)
    exact absurd hsame (by decide)
  · exact hname.elim (absurd · (hcreate name)) (absurd · (hdelete name))

theorem runCommand_confined_oneTable :
    let later := (runCommand oneChip (onChip (.replace "target.json")) chipDisk).2
    (later.fileText "config_db0.json").toOption = some (Json.pretty oneTable ++ "\n") ∧
      (later.fileText "config_db.json").toOption = some emptyText ∧
      runCommand oneChip (onChip (.rollback "before")) chipDisk
        = runCommand oneChip { onChip (.rollback "before") with scope := none } chipDisk := by
  have hname : Scope.ofName? "asic0" = some (.asic 0) := rfl
  refine ⟨?_, ?_, ?_⟩
  · rw [runCommand_replace_oneTable]
    rfl
  · have hapart : Apart oneChip (onChip (.replace "target.json")).command (.asic 0) .host
        (runCommand oneChip (onChip (.replace "target.json")) chipDisk).2 := by
      rw [runCommand_replace_oneTable]
      exact apart_oneChip nofun nofun ⟨rfl, rfl⟩ ⟨rfl, rfl⟩
    exact (runCommand_confined oneChip (onChip (.replace "target.json")) chipDisk rfl hname).1 nofun .host
      (.head _) hapart
  · exact (runCommand_confined oneChip (onChip (.rollback "before")) chipDisk rfl hname).2 "before" rfl rfl

/-- A rollback within a scope can change the configuration of another scope. -/
theorem exists_rollback_outside_scope :
    ¬ ∀ (s : Settings) (i : Invocation) (disk : Disk) (name : String) (scope other : Scope), s.check = .ok () →
      s.multiAsic = true → i.scope = some name → Scope.ofName? name = some scope → other ∈ s.scopes →
      other ≠ scope → Apart s i.command scope other (runCommand s i disk).2 →
      ((runCommand s i disk).2.fileText (s.configPath other)).toOption =
        (disk.fileText (s.configPath other)).toOption := by
  intro hall
  have hcheck : oneChip.check = .ok () := by decide +kernel
  have hapart : Apart oneChip (onChip (.rollback "before")).command (.asic 0) .host
      (runCommand oneChip (onChip (.rollback "before")) chipDisk).2 := by
    rw [runCommand_rollback_hostBefore]
    exact apart_oneChip nofun nofun ⟨rfl, rfl⟩ ⟨rfl, rfl⟩
  have hkept := hall oneChip (onChip (.rollback "before")) chipDisk "asic0" (.asic 0) .host hcheck rfl rfl rfl
    (.head _) nofun hapart
  rw [runCommand_rollback_hostBefore] at hkept
  have hsame : some (Json.pretty oneTable ++ "\n") = some emptyText := hkept
  exact absurd hsame (by decide)

end CommandLine

end ConfigUpdate
