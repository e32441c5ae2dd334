import ConfigUpdate.Proofs.ScopedCommands

/-!
# Dry runs

A dry run leaves the disk as it is, unless its command makes or deletes a checkpoint: these two do not look at the
flag, so they write what they would write without it (`CommandLine.invoke_dryRun`). A checkpoint is lost in a dry
run that deletes it (`CommandLine.exists_dryRun_loses_checkpoint`).
-/

namespace ConfigUpdate

/-! ## The same files -/

namespace Disk

variable {d d' made : Disk} {path text : String}

/-- At every place there is a file before and afterwards, with the same text, or there is none both times. -/
def SameFiles (d d' : Disk) : Prop :=
  ∀ place text, d'.node? place = some (.file text) ↔ d.node? place = some (.file text)

theorem SameFiles.refl (d : Disk) : d.SameFiles d :=
  fun _ _ => Iff.rfl

/-- The file of a path stood at its place before, with the same text. -/
def HasStood (d d' : Disk) (path : String) : Prop :=
  ∃ place text, d'.Leads path place ∧ d'.node? place = some (.file text) ∧ d.node? place = some (.file text)

/-- A file that is written is the only one that can have changed. -/
theorem sameFiles_iff_hasStood (hgrows : Grows d made) (h : made.writeFile path text = .ok d') :
    d.SameFiles d' ↔ d.HasStood d' path := by
  obtain ⟨place, hleads, -, hfree, rfl⟩ := writeFile_eq_ok_iff.1 h
  have hchange := fileChange_put hfree text
  have hleads' := hchange.leads_iff.2 hleads
  have hwritten : (made.put place (.file text)).node? place = some (.file text) := by
    rw [node?_put made (ne_nil_of_node? hfree), if_pos rfl]
  constructor
  · intro hsame
    exact ⟨place, text, hleads', hwritten, (hsame place text).1 hwritten⟩
  · rintro ⟨place', text', hplace, hlater, hbefore⟩ q t
    obtain rfl := hplace.unique hleads'
    by_cases hq : q = place'
    · rw [hq, hlater, hbefore]
    · rw [hchange.others q hq, hgrows.file_iff]

theorem not_sameFiles_removeFile (h : d.removeFile path = .ok d') : ¬ d.SameFiles d' := by
  obtain ⟨place, text, -, -, hnode, rfl⟩ := removeFile_eq_ok_iff.1 h
  intro hsame
  have hfree : d.node? place ≠ some .directory := by simp [hnode]
  have hkept := (hsame place text).2 hnode
  rw [node?_drop d (ne_nil_of_node? hfree), if_pos rfl] at hkept
  cases hkept

end Disk

/-- Whether a command makes or deletes a checkpoint. -/
def Command.WritesCheckpoint (command : Command) : Prop :=
  ∃ name, command = .createCheckpoint name ∨ command = .deleteCheckpoint name

namespace CommandLine

variable {s : Settings} {disk : Disk} {dryRun : Bool} {scope : Option Scope} {i : Invocation} {command : Command}
  {name : String}

/-- A dry run of a command that neither makes nor deletes a checkpoint leaves the disk as it is. -/
theorem disk_runIn_dryRun (h : ¬ command.WritesCheckpoint) : (runIn s true scope disk command).2 = disk := by
  cases command with
  | applyPatch path =>
    simp only [runIn]
    split
    · rfl
    · exact disk_runUpdate_dryRun fun u switch hdry => Updater.run_dryRun hdry _ switch
  | replace path =>
    simp only [runIn]
    split
    · rfl
    · exact disk_runUpdate_dryRun fun u switch hdry => Updater.run_dryRun hdry _ switch
  | rollback name => exact disk_runUpdate_dryRun fun u switch hdry => Updater.rollback_dryRun hdry _ name switch
  | createCheckpoint name => exact absurd ⟨name, .inl rfl⟩ h
  | deleteCheckpoint name => exact absurd ⟨name, .inr rfl⟩ h
  | listCheckpoints => rfl
  | diff path => rfl

/-! ## Checkpoints that are made and deleted -/

theorem setUp_dryRun (s : Settings) (dryRun : Bool) (disk : Disk) :
    setUp s dryRun disk = (setUp s false disk).map fun r => ({ r.1 with dryRun }, r.2) := by
  unfold setUp
  cases openSwitch s disk with
  | error e => rfl
  | ok switch =>
    cases hplatform : ofUpdate (Platform.detect disk s.versionPath Database.store
        (.file (s.configPath .host), disk) s.chassis) with
    | error e => rfl
    | ok platform =>
      cases readRules s disk with
      | error e => rfl
      | ok rules => rfl

/-- Making a checkpoint does not depend on whether it is a dry run. -/
theorem runCreate_dryRun (s : Settings) (dryRun : Bool) (disk : Disk) (name : String) :
    runCreate s dryRun disk name = runCreate s false disk name := by
  unfold runCreate
  rw [setUp_dryRun]
  cases setUp s false disk with
  | error e => rfl
  | ok r => rfl

/-- A dry run of a command that writes a checkpoint leaves the files as they are where it fails, and where it makes
a checkpoint that is there already. -/
theorem sameFiles_runIn_dryRun_iff (s : Settings) (scope : Option Scope) (disk : Disk) (command : Command) :
    disk.SameFiles (runIn s true scope disk command).2 ↔
      (∀ output, (runIn s true scope disk command).1 ≠ .ok output) ∨ ¬ command.WritesCheckpoint ∨
        ∃ name, command = .createCheckpoint name ∧ disk.HasStood (runIn s true scope disk command).2
          (Checkpoint.filePath s.checkpointDirectory name) := by
  by_cases hwrites : command.WritesCheckpoint
  · obtain ⟨name, rfl | rfl⟩ := hwrites
    · simp only [runIn]
      obtain ⟨e, he⟩ | ⟨output, later, made, text, hrun, -, hgrows, hwrite⟩ := runCreate_cases s true disk name
      · rw [he]
        exact iff_of_true (.refl disk) (.inl fun output h => by cases h)
      · rw [hrun, Disk.sameFiles_iff_hasStood hgrows hwrite]
        constructor
        · intro hstood
          exact .inr (.inr ⟨name, rfl, hstood⟩)
        · rintro (hfails | hno | ⟨name', hname, hstood⟩)
          · exact absurd rfl (hfails output)
          · exact absurd ⟨name, .inl rfl⟩ hno
          · cases hname
            exact hstood
    · simp only [runIn]
      obtain ⟨e, he⟩ | ⟨output, later, hrun, hremove⟩ := runDelete_cases s disk name
      · rw [he]
        exact iff_of_true (.refl disk) (.inl fun output h => by cases h)
      · rw [hrun]
        refine iff_of_false (Disk.not_sameFiles_removeFile hremove) ?_
        rintro (hfails | hno | ⟨name', hname, -⟩)
        · exact hfails output rfl
        · exact hno ⟨name, .inr rfl⟩
        · cases hname
  · rw [disk_runIn_dryRun hwrites]
    exact iff_of_true (.refl disk) (.inr (.inl hwrites))

/-! ## Uses of the program -/

/-- A use of the program fails before its command is run, or it ends as the command ends. -/
theorem invoke_cases (i : Invocation) (disk : Disk) :
    ((invoke i disk).exitCode ≠ 0 ∧ (invoke i disk).disk = disk) ∨
      ∃ s scope, settingsOf i disk = .ok s ∧
        (invoke i disk).disk = (runIn s i.dryRun scope disk i.command).2 ∧
        ((invoke i disk).exitCode ≠ 0 ↔ ∀ output, (runIn s i.dryRun scope disk i.command).1 ≠ .ok output) := by
  unfold invoke
  cases hsettings : settingsOf i disk with
  | error e => exact .inl ⟨Nat.one_ne_zero, rfl⟩
  | ok s =>
    simp only [runCommand]
    cases scopeOf s i.scope with
    | error e => exact .inl ⟨Nat.one_ne_zero, rfl⟩
    | ok scope =>
      refine .inr ⟨s, scope, rfl, ?_⟩
      rcases hrun : runIn s i.dryRun scope disk i.command with ⟨e | output, later⟩
      · simp [hrun]
      · simp [hrun]

/-- A command that writes a checkpoint does not look at the flag. -/
theorem invoke_of_writesCheckpoint (h : i.command.WritesCheckpoint) (disk : Disk) :
    invoke i disk = invoke { i with dryRun := false } disk := by
  have hrun (s : Settings) (scope : Option Scope) :
      runIn s i.dryRun scope disk i.command = runIn s false scope disk i.command := by
    obtain ⟨name, hcommand | hcommand⟩ := h
    · rw [hcommand]
      exact runCreate_dryRun s i.dryRun disk name
    · rw [hcommand]
      rfl
  have hsettings : settingsOf { i with dryRun := false } disk = settingsOf i disk := rfl
  simp only [invoke, runCommand, hsettings, hrun]

/-- A dry run leaves the disk as it is, whether it succeeds or fails, unless it makes or deletes a checkpoint. Then
it does what it would do without the flag, so that the files are the same afterwards only if it fails, or makes a
checkpoint whose file was there already with the same text. -/
theorem invoke_dryRun (i : Invocation) (disk : Disk) (hdry : i.dryRun = true) :
    (¬ i.command.WritesCheckpoint → (invoke i disk).disk = disk) ∧
      (i.command.WritesCheckpoint → invoke i disk = invoke { i with dryRun := false } disk) ∧
      (disk.SameFiles (invoke i disk).disk ↔
        (invoke i disk).exitCode ≠ 0 ∨ ¬ i.command.WritesCheckpoint ∨
          ∃ name s, i.command = .createCheckpoint name ∧ settingsOf i disk = .ok s ∧
            disk.HasStood (invoke i disk).disk (Checkpoint.filePath s.checkpointDirectory name)) := by
  refine ⟨?_, fun hwrites => invoke_of_writesCheckpoint hwrites disk, ?_⟩
  · intro hwrites
    obtain ⟨-, hdisk⟩ | ⟨s, scope, -, hdisk, -⟩ := invoke_cases i disk
    · exact hdisk
    · rw [hdisk, hdry, disk_runIn_dryRun hwrites]
  · obtain ⟨hfails, hdisk⟩ | ⟨s, scope, hsettings, hdisk, hfails⟩ := invoke_cases i disk
    · rw [hdisk]
      exact iff_of_true (.refl disk) (.inl hfails)
    · rw [hdisk, hfails, hdry, sameFiles_runIn_dryRun_iff]
      simp [hsettings]

/-! ## A checkpoint that is lost -/

/-- A disk on which there is a checkpoint, and no file of settings. -/
def checkpointDisk : Disk :=
  ((((Disk.blank []).put ["etc"] .directory).put ["etc", "sonic"] .directory).put
    ["etc", "sonic", "checkpoints"] .directory).put ["etc", "sonic", "checkpoints", "before.cp.json"]
    (.file emptyText)

/-- A dry run that deletes the checkpoint. -/
def deleteBefore : Invocation := ⟨"gcu.toml", none, true, none, .deleteCheckpoint "before"⟩

theorem settingsOf_deleteBefore : settingsOf deleteBefore checkpointDisk = .ok {} := by
  have hfile : checkpointDisk.fileText deleteBefore.settingsPath = .error .notFound := rfl
  have hcheck : Settings.check {} = .ok () := by decide +kernel
  simp only [settingsOf, Settings.loadOrDefault, hfile]
  simp [hcheck, bind, Except.bind, pure, Except.pure]

theorem invoke_deleteBefore :
    invoke deleteBefore checkpointDisk = ⟨0, "Checkpoint before deleted\n", "",
      checkpointDisk.drop ["etc", "sonic", "checkpoints", "before.cp.json"]⟩ := by
  simp only [invoke, settingsOf_deleteBefore]
  rfl

theorem invoke_dryRun_deleteBefore :
    deleteBefore.dryRun = true ∧
      invoke deleteBefore checkpointDisk = invoke { deleteBefore with dryRun := false } checkpointDisk ∧
      ¬ checkpointDisk.SameFiles (invoke deleteBefore checkpointDisk).disk := by
  obtain ⟨-, hflag, hsame⟩ := invoke_dryRun deleteBefore checkpointDisk rfl
  refine ⟨rfl, hflag ⟨"before", .inr rfl⟩, fun hkept => ?_⟩
  obtain hfails | hno | ⟨name, s, hcreate, -⟩ := hsame.1 hkept
  · exact hfails (by rw [invoke_deleteBefore])
  · exact hno ⟨"before", .inr rfl⟩
  · cases hcreate

/-- A dry run can lose a checkpoint. -/
theorem exists_dryRun_loses_checkpoint :
    ¬ ∀ (i : Invocation) (disk : Disk) (s : Settings), i.dryRun = true → settingsOf i disk = .ok s →
      (∀ scope ∈ s.scopes, ((invoke i disk).disk.fileText (s.configPath scope)).toOption =
          (disk.fileText (s.configPath scope)).toOption) ∧
        ∀ name, Checkpoint.isName name = true →
          ((invoke i disk).disk.fileText (Checkpoint.filePath s.checkpointDirectory name)).toOption =
            (disk.fileText (Checkpoint.filePath s.checkpointDirectory name)).toOption := by
  intro hall
  have hkept := (hall deleteBefore checkpointDisk {} rfl settingsOf_deleteBefore).2 "before" (by decide)
  rw [invoke_deleteBefore] at hkept
  have hlost : none = some emptyText := hkept
  cases hlost

end CommandLine

end ConfigUpdate
