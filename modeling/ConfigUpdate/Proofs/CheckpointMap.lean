import ConfigUpdate.Proofs.CheckpointNames
import ConfigUpdate.Proofs.JsonReadBack

/-!
# Checkpoints as a map

A directory of checkpoints is a map from names to configurations: after any sequence of calls from an absent
directory, every call answers as the map does that the sequence describes (`Checkpoint.actsAsMap_after`). The
files of the directory hold the map (`Checkpoint.Keeps`), and the rest of the disk stays as it was.
-/

namespace ConfigUpdate.Checkpoint

variable {d origin disk made : Disk} {directory name other file : String} {home : Place} {config : Value}

/-! ## Calls -/

/-- A call of the checkpoints in a directory. -/
inductive Call where
  | create (name : String) (config : Value)
  | delete (name : String)
  | load (name : String)
  | contains (name : String)
  | list

/-- The disk after a call; a call that fails changes nothing. -/
def Call.after (directory : String) : Call → Disk → Disk
  | .create name config, disk =>
    match Checkpoint.create directory name config disk with
    | .ok (_, disk) => disk
    | .error _ => disk
  | .delete name, disk =>
    match Checkpoint.delete directory name disk with
    | .ok disk => disk
    | .error _ => disk
  | _, disk => disk

/-- The disk after a sequence of calls. -/
def after (directory : String) (calls : List Call) (disk : Disk) : Disk :=
  calls.foldl (fun disk call => call.after directory disk) disk

/-- What a call makes of the configuration under a name. -/
def Call.keep (name : String) : Call → Option Value → Option Value
  | .create other config, kept => if other = name then some config else kept
  | .delete other, kept => if other = name then none else kept
  | _, kept => kept

/-- The configuration of the last creation of a name that no deletion follows. -/
def kept (calls : List Call) (name : String) : Option Value :=
  calls.foldl (fun kept call => call.keep name kept) none

/-- The configuration of a call can be written and read. -/
def Call.Storable : Call → Prop
  | .create _ config => Json.Storable config ∧ config.isObject = true
  | _ => True

/-- The name of which a call changes the checkpoint. -/
def Call.changed? : Call → Option String
  | .create name _ | .delete name => some name
  | _ => none

theorem Call.keep_of_changed_ne {call : Call} (h : call.changed? ≠ some name) (kept : Option Value) :
    call.keep name kept = kept := by
  cases call with
  | create other given => exact if_neg fun heq => h (congrArg some heq)
  | delete other => exact if_neg fun heq => h (congrArg some heq)
  | load other => rfl
  | contains other => rfl
  | list => rfl

theorem Call.storable_keep {call : Call} (hcall : call.Storable) {kept : Option Value}
    (hkept : kept = some config → Json.Storable config ∧ config.isObject = true)
    (h : call.keep name kept = some config) : Json.Storable config ∧ config.isObject = true := by
  cases call with
  | create other given =>
    simp only [Call.keep] at h
    split at h
    · cases h
      exact hcall
    · exact hkept h
  | delete other =>
    simp only [Call.keep] at h
    split at h
    · cases h
    · exact hkept h
  | load other => exact hkept h
  | contains other => exact hkept h
  | list => exact hkept h

/-! ## The directory -/

/-- The directory is absent, and the disk does not fail: the directory can be made, and then every checkpoint
can be written. -/
structure Room (d : Disk) (directory : String) (home : Place) : Prop where
  distinct : d.Distinct
  absent : ∀ place, home <+: place → d.node? place = none
  made : ∃ made, d.createDirectories directory = .ok made ∧ made.Leads directory home ∧
    ∀ name text, isName name = true → ∃ written, made.writeFile (filePath directory name) text = .ok written

/-- There is room wherever a directory can be made under a path that is not too long, if nothing gets in the way
of a checkpoint thereby. -/
theorem room_of_createDirectories (hdistinct : d.Distinct)
    (habsent : ∀ place, home <+: place → d.node? place = none)
    (hmade : d.createDirectories directory = .ok made) (hleads : made.Leads directory home)
    (hhome : made.node? home = some .directory)
    (hfree : ∀ name, isName name = true → made.node? (home ++ [fileName name]) ≠ some .directory)
    (hshort : directory.utf8ByteSize + 137 < Disk.pathLimit) : Room d directory home := by
  refine ⟨hdistinct, habsent, made, hmade, hleads, fun name text hname => ?_⟩
  have hsize : (fileName name).utf8ByteSize ≤ Disk.nameLimit := (utf8ByteSize_fileName hname).trans (by decide)
  have hcheck := checkPath_filePath hname hleads.1 hshort
  have hreaches := hleads.inside hhome (isNodeName_fileName hname) hsize hcheck
  have hasks := asksDirectory_filePath directory name
  exact ⟨_, Disk.writeFile_eq_ok_iff.2 ⟨_, hreaches, hasks, hfree name hname, rfl⟩⟩

/-- The directory is there, and its files hold a map of names to configurations. The other files of the disk
are those of the disk from which it comes. -/
structure Keeps (origin : Disk) (directory : String) (home : Place) (m : String → Option Value)
    (disk : Disk) : Prop where
  distinct : disk.Distinct
  leads : disk.Leads directory home
  isDirectory : disk.node? home = some .directory
  reaches : ∀ name, isName name = true → disk.Leads (filePath directory name) (home ++ [fileName name]) ∧
    Disk.asksDirectory (filePath directory name) = false
  holds : ∀ name, isName name = true →
    disk.node? (home ++ [fileName name]) = (m name).map fun config => .file (Json.pretty config)
  elsewhere : ∀ place text, (∀ name, isName name = true → place ≠ home ++ [fileName name]) →
    (disk.node? place = some (.file text) ↔ origin.node? place = some (.file text))

variable {m : String → Option Value}

theorem Room.keeps (h : Room d directory home) :
    ∃ made, d.createDirectories directory = .ok made ∧ d.Grows made ∧
      Keeps d directory home (fun _ => none) made := by
  obtain ⟨made, hmade, hleads, hwrites⟩ := h.made
  obtain ⟨here, names, hway⟩ := Disk.exists_createWay hmade
  have hgrows := Disk.grows_createWay hway
  have hfile (name : String) (hname : isName name = true) :
      made.Leads (filePath directory name) (home ++ [fileName name]) ∧
        Disk.asksDirectory (filePath directory name) = false ∧
        made.node? (home ++ [fileName name]) ≠ some .directory ∧ made.node? home = some .directory := by
    obtain ⟨written, hwritten⟩ := hwrites name "" hname
    obtain ⟨place, hplace, hasks, hfree, -⟩ := Disk.writeFile_eq_ok_iff.1 hwritten
    obtain ⟨rfl, hhome⟩ := hleads.of_inside (isNodeName_fileName hname) hplace
    exact ⟨hplace, hasks, hfree, hhome⟩
  refine ⟨made, hmade, hgrows, h.distinct.createWay hway, hleads, (hfile "a" (by decide)).2.2.2,
    fun name hname => ⟨(hfile name hname).1, (hfile name hname).2.1⟩, fun name hname => ?_,
    fun place text _ => hgrows.file_iff place text⟩
  obtain hsame | ⟨-, hdirectory⟩ := hgrows.node? (home ++ [fileName name])
  · exact hsame.trans (h.absent _ (List.prefix_append _ _))
  · exact absurd hdirectory (hfile name hname).2.2.1

/-- In an absent directory nothing is found. -/
theorem Room.missing (h : Room d directory home) :
    d.Missing directory ∧ ∀ name, isName name = true → d.Missing (filePath directory name) := by
  obtain ⟨made, -, hgrows, hkeeps⟩ := h.keeps
  exact ⟨hgrows.missing hkeeps.leads (h.absent home List.prefix_rfl), fun name hname =>
    hgrows.missing (hkeeps.reaches name hname).1 (h.absent _ (List.prefix_append _ _))⟩

namespace Keeps

theorem not_directory (h : Keeps origin directory home m disk) (hname : isName name = true) :
    disk.node? (home ++ [fileName name]) ≠ some .directory := by
  rw [h.holds name hname]
  cases m name <;> simp

/-- The step: a change of the file of a name changes the map at that name. -/
theorem change (h : Keeps origin directory home m disk) {later : Disk}
    (hchange : Disk.FileChange disk later (home ++ [fileName name])) (hdistinct : later.Distinct)
    (m' : String → Option Value) (hother : ∀ other, other ≠ name → m' other = m other)
    (hname : isName name = true)
    (hself : later.node? (home ++ [fileName name]) = (m' name).map fun config => .file (Json.pretty config)) :
    Keeps origin directory home m' later where
  distinct := hdistinct
  leads := hchange.leads_iff.2 h.leads
  isDirectory := hchange.keepsDirectories.directory home h.isDirectory
  reaches other hother := ⟨hchange.leads_iff.2 (h.reaches other hother).1, (h.reaches other hother).2⟩
  holds other hisName := by
    by_cases heq : other = name
    · rw [heq, hself]
    · have hplace : home ++ [fileName other] ≠ home ++ [fileName name] := fun hplaces =>
        heq (fileName_injective (List.singleton_inj.1 (List.append_cancel_left hplaces)))
      rw [hchange.others _ hplace, hother other heq, h.holds other hisName]
  elsewhere place text hplace := by
    rw [hchange.others place (hplace name hname)]
    exact h.elsewhere place text hplace

theorem create (h : Keeps origin directory home m disk) (hname : isName name = true) (config : Value) :
    ∃ later, Checkpoint.create directory name config disk = .ok (filePath directory name, later) ∧
      Keeps origin directory home (fun n => (Call.create name config).keep n (m n)) later := by
  obtain ⟨hreaches, hasks⟩ := h.reaches name hname
  have hfree := h.not_directory hname
  have hmade := Disk.createDirectories_of_leads h.leads h.isDirectory
  have hwrite : disk.writeFile (filePath directory name) (Json.pretty config) =
      .ok (disk.put (home ++ [fileName name]) (.file (Json.pretty config))) :=
    Disk.writeFile_eq_ok_iff.2 ⟨_, hreaches, hasks, hfree, rfl⟩
  refine ⟨disk.put (home ++ [fileName name]) (.file (Json.pretty config)), ?_, ?_⟩
  · simp only [Checkpoint.create, checkName, hname, if_true, hmade, hwrite, bind, Except.bind, pure,
      Except.pure]
  · refine h.change (Disk.fileChange_put hfree _) (h.distinct.put _ _) _ (fun other hother => ?_) hname ?_
    · simp [Call.keep, Ne.symm hother]
    · simp [Call.keep, Disk.node?_put]

theorem delete_some (h : Keeps origin directory home m disk) (hname : isName name = true)
    (hkept : m name = some config) :
    ∃ later, Checkpoint.delete directory name disk = .ok later ∧
      Keeps origin directory home (fun n => (Call.delete name).keep n (m n)) later := by
  obtain ⟨hreaches, hasks⟩ := h.reaches name hname
  have hnode : disk.node? (home ++ [fileName name]) = some (.file (Json.pretty config)) := by
    rw [h.holds name hname, hkept]
    rfl
  have hremove : disk.removeFile (filePath directory name) = .ok (disk.drop (home ++ [fileName name])) :=
    Disk.removeFile_eq_ok_iff.2 ⟨_, _, hreaches, hasks, hnode, rfl⟩
  refine ⟨disk.drop (home ++ [fileName name]), ?_, ?_⟩
  · simp only [Checkpoint.delete, checkName, hname, if_true, hremove, bind, Except.bind, pure, Except.pure]
  · have hchange := Disk.fileChange_drop (h.not_directory hname)
    refine h.change hchange (h.distinct.drop _) _ (fun other hother => ?_) hname ?_
    · simp [Call.keep, Ne.symm hother]
    · simp [Call.keep, Disk.node?_drop]

theorem fileText_some (h : Keeps origin directory home m disk) (hname : isName name = true)
    (hkept : m name = some config) : disk.fileText (filePath directory name) = .ok (Json.pretty config) := by
  obtain ⟨hreaches, hasks⟩ := h.reaches name hname
  refine Disk.fileText_eq_ok_iff.2 ⟨_, hreaches, hasks, ?_⟩
  rw [h.holds name hname, hkept]
  rfl

theorem missing (h : Keeps origin directory home m disk) (hname : isName name = true) (hkept : m name = none) :
    disk.Missing (filePath directory name) := by
  refine (h.reaches name hname).1.missing ?_
  rw [h.holds name hname, hkept]
  rfl

end Keeps

/-! ## Answers -/

theorem load_missing (hname : isName name = true) (h : disk.Missing (filePath directory name)) :
    load directory name disk = .error (diskFailure name .notFound) := by
  simp only [load, checkName, hname, if_true, h.fileText, bind, Except.bind]
  rfl

theorem load_stored (hname : isName name = true) (hstorable : Json.Storable config)
    (hobject : config.isObject = true)
    (h : disk.fileText (filePath directory name) = .ok (Json.pretty config)) :
    load directory name disk = .ok config := by
  simp only [load, checkName, hname, if_true, h, Json.parse?_pretty hstorable, hobject, bind, Except.bind]
  rfl

theorem contains_missing (h : disk.Missing (filePath directory name)) :
    contains directory name disk = false := by
  simp only [contains, Disk.hasFile, h.fileText, Bool.and_false]

theorem contains_stored (hname : isName name = true) {text : String}
    (h : disk.fileText (filePath directory name) = .ok text) : contains directory name disk = true := by
  simp only [contains, Disk.hasFile, hname, h, Bool.and_self]

theorem delete_missing (hname : isName name = true) (h : disk.Missing (filePath directory name)) :
    delete directory name disk = .error (diskFailure name .notFound) := by
  simp only [delete, checkName, hname, if_true, h.removeFile, bind, Except.bind]
  rfl

/-- A checkpoint is made by making the directory and writing the file. -/
theorem create_eq_ok {path : String} {later : Disk}
    (h : create directory name config disk = .ok (path, later)) :
    isName name = true ∧ ∃ made, disk.createDirectories directory = .ok made ∧
      made.writeFile (filePath directory name) (Json.pretty config) = .ok later := by
  obtain ⟨⟨⟩, hcheck, h⟩ := exists_of_bind_eq_ok h
  have hname : isName name = true := by
    unfold checkName at hcheck
    split at hcheck
    · assumption
    · cases hcheck
  dsimp only at h
  split at h
  · rename_i written hwritten
    cases h
    obtain ⟨made, hmade, hwrite⟩ := exists_of_bind_eq_ok hwritten
    exact ⟨hname, made, hmade, hwrite⟩
  · cases h

/-- The step that makes the directory is left out where it is there already. -/
theorem create_of_made (h : disk.createDirectories directory = .ok made)
    (hagain : made.createDirectories directory = .ok made) (name : String) (config : Value) :
    create directory name config disk = create directory name config made := by
  simp only [create, h, hagain]

/-- A name that is none is refused by every call. -/
def Refuses (directory name : String) (disk : Disk) : Prop :=
  (∀ config, ∃ e, create directory name config disk = .error e) ∧ (∃ e, load directory name disk = .error e) ∧
    (∃ e, delete directory name disk = .error e) ∧ contains directory name disk = false ∧
    ∀ call, Call.changed? call = some name → call.after directory disk = disk

theorem refuses_of_not_name (h : isName name = false) (directory : String) (disk : Disk) :
    Refuses directory name disk := by
  have hcheck : ∃ e, checkName name = .error e := ⟨_, by simp only [checkName, h]; rfl⟩
  obtain ⟨e, hcheck⟩ := hcheck
  have hcreate (config : Value) : create directory name config disk = .error e := by
    simp only [create, hcheck, bind, Except.bind]
  have hdelete : delete directory name disk = .error e := by simp only [delete, hcheck, bind, Except.bind]
  refine ⟨fun config => ⟨e, hcreate config⟩, ⟨e, by simp only [load, hcheck, bind, Except.bind]⟩, ⟨e, hdelete⟩,
    by simp only [contains, h, Bool.false_and], fun call hcall => ?_⟩
  cases call with
  | create other config =>
    cases hcall
    simp only [Call.after, hcreate]
  | delete other =>
    cases hcall
    simp only [Call.after, hdelete]
  | load other => cases hcall
  | contains other => cases hcall
  | list => cases hcall

/-- The checkpoints in a directory answer as the map does. Names that are none are refused, the files of the
others stand right in the directory, and no other file of the disk has changed. -/
structure ActsAsMap (origin : Disk) (directory : String) (home : Place) (m : String → Option Value)
    (disk : Disk) : Prop where
  create : ∀ name config, isName name = true →
    ∃ later, Checkpoint.create directory name config disk = .ok (filePath directory name, later)
  load : ∀ name, isName name = true →
    Checkpoint.load directory name disk = (m name).elim (.error (diskFailure name .notFound)) .ok
  contains : ∀ name, isName name = true → Checkpoint.contains directory name disk = (m name).isSome
  delete : ∀ name, isName name = true →
    ((∃ later, Checkpoint.delete directory name disk = .ok later) ↔ (m name).isSome = true)
  list : ∃ names, Checkpoint.list directory disk = .ok names ∧ names.Pairwise (· < ·) ∧
    ∀ name, name ∈ names ↔ isName name = true ∧ (m name).isSome = true
  apart : ∀ (call : Call) (name : String), call.Storable → isName name = true → call.changed? ≠ some name →
    Checkpoint.load directory name (call.after directory disk) = Checkpoint.load directory name disk ∧
      Checkpoint.contains directory name (call.after directory disk) = Checkpoint.contains directory name disk
  refuses : ∀ name, isName name = false → Refuses directory name disk
  reaches : ∀ name place, isName name = true → disk.Leads (filePath directory name) place →
    place = home ++ [fileName name]
  elsewhere : ∀ place text, (∀ name, isName name = true → place ≠ home ++ [fileName name]) →
    (disk.node? place = some (.file text) ↔ origin.node? place = some (.file text))

/-! ## Sequences of calls -/

/-- The directory is absent still, or it keeps the map, whose configurations can be written and read. -/
structure Stage (origin : Disk) (directory : String) (home : Place) (m : String → Option Value)
    (disk : Disk) : Prop where
  storable : ∀ name config, m name = some config → Json.Storable config ∧ config.isObject = true
  kept : (disk = origin ∧ ∀ name, isName name = true → m name = none) ∨ Keeps origin directory home m disk

namespace Stage

variable (hroom : Room origin directory home) (h : Stage origin directory home m disk)

include h in
theorem congr {m' : String → Option Value} (hsame : ∀ name, isName name = true → m' name = m name)
    (hstorable : ∀ name config, m' name = some config → Json.Storable config ∧ config.isObject = true) :
    Stage origin directory home m' disk := by
  refine ⟨hstorable, ?_⟩
  obtain ⟨hdisk, hnone⟩ | hkeeps := h.kept
  · exact .inl ⟨hdisk, fun name hname => (hsame name hname).trans (hnone name hname)⟩
  · exact .inr { hkeeps with holds := fun name hname => by rw [hsame name hname, hkeeps.holds name hname] }

include hroom h

/-- A name has its file, or nothing is found. -/
theorem cases (hname : isName name = true) :
    (∃ config, m name = some config ∧ Json.Storable config ∧ config.isObject = true ∧
      disk.fileText (filePath directory name) = .ok (Json.pretty config)) ∨
      (m name = none ∧ disk.Missing (filePath directory name)) := by
  obtain ⟨rfl, hnone⟩ | hkeeps := h.kept
  · exact .inr ⟨hnone name hname, hroom.missing.2 name hname⟩
  · cases hkept : m name with
    | none => exact .inr ⟨rfl, hkeeps.missing hname hkept⟩
    | some config =>
      obtain ⟨hconfig, hobject⟩ := h.storable name config hkept
      exact .inl ⟨config, rfl, hconfig, hobject, hkeeps.fileText_some hname hkept⟩

theorem load (hname : isName name = true) :
    Checkpoint.load directory name disk = (m name).elim (.error (diskFailure name .notFound)) .ok := by
  obtain ⟨config, hkept, hconfig, hobject, htext⟩ | ⟨hkept, hmissing⟩ := h.cases hroom hname
  · rw [hkept]
    exact load_stored hname hconfig hobject htext
  · rw [hkept]
    exact load_missing hname hmissing

theorem contains (hname : isName name = true) : Checkpoint.contains directory name disk = (m name).isSome := by
  obtain ⟨config, hkept, -, -, htext⟩ | ⟨hkept, hmissing⟩ := h.cases hroom hname
  · rw [hkept]
    exact contains_stored hname htext
  · rw [hkept]
    exact contains_missing hmissing

theorem create (hname : isName name = true) (config : Value) :
    ∃ later, Checkpoint.create directory name config disk = .ok (filePath directory name, later) ∧
      Keeps origin directory home (fun n => (Call.create name config).keep n (m n)) later := by
  obtain ⟨rfl, hnone⟩ | hkeeps := h.kept
  · obtain ⟨made, hmade, -, hkeeps⟩ := hroom.keeps
    obtain ⟨later, hcreate, hlater⟩ := hkeeps.create hname config
    refine ⟨later, ?_, { hlater with holds := fun other hother => ?_ }⟩
    · rw [create_of_made hmade (Disk.createDirectories_of_leads hkeeps.leads hkeeps.isDirectory), hcreate]
    · rw [hlater.holds other hother, hnone other hother]
  · exact hkeeps.create hname config

theorem delete (hname : isName name = true) :
    (∃ config later, m name = some config ∧ Checkpoint.delete directory name disk = .ok later ∧
      Keeps origin directory home (fun n => (Call.delete name).keep n (m n)) later) ∨
      (m name = none ∧ Checkpoint.delete directory name disk = .error (diskFailure name .notFound)) := by
  obtain ⟨config, hkept, -⟩ | ⟨hkept, hmissing⟩ := h.cases hroom hname
  · obtain ⟨-, hnone⟩ | hkeeps := h.kept
    · exact absurd ((hnone name hname).symm.trans hkept) nofun
    · obtain ⟨later, hdelete, hlater⟩ := hkeeps.delete_some hname hkept
      exact .inl ⟨config, later, hkept, hdelete, hlater⟩
  · exact .inr ⟨hkept, delete_missing hname hmissing⟩

theorem list : ∃ names, Checkpoint.list directory disk = .ok names ∧ names.Pairwise (· < ·) ∧
    ∀ name, name ∈ names ↔ isName name = true ∧ (m name).isSome = true := by
  obtain ⟨rfl, hnone⟩ | hkeeps := h.kept
  · have hlist : Checkpoint.list directory disk = .ok [] := by
      simp only [Checkpoint.list, hroom.missing.1.listDirectory]
    refine ⟨[], hlist, List.Pairwise.nil, fun name => ?_⟩
    have hfree (hname : isName name = true) : (m name).isSome = false := by rw [hnone name hname]; rfl
    simpa using hfree
  · refine ⟨_, by simp only [Checkpoint.list, Disk.listDirectory_of_leads hkeeps.leads hkeeps.isDirectory],
      pairwise_names (hkeeps.distinct.nodup_namesIn home), fun name => ?_⟩
    rw [mem_names]
    refine and_congr_right fun hname => ?_
    rw [Disk.mem_namesIn, hkeeps.holds name hname, Option.isSome_map]

theorem reaches (hname : isName name = true) {place : Place}
    (hplace : disk.Leads (filePath directory name) place) : place = home ++ [fileName name] := by
  obtain ⟨rfl, -⟩ | hkeeps := h.kept
  · obtain ⟨made, -, hgrows, hkeeps⟩ := hroom.keeps
    exact (hplace.keep hgrows.keepsDirectories).unique (hkeeps.reaches name hname).1
  · exact hplace.unique (hkeeps.reaches name hname).1

/-- The step: a call takes the map to the map that it describes. -/
theorem step {call : Call} (hcall : call.Storable) :
    Stage origin directory home (fun n => call.keep n (m n)) (call.after directory disk) := by
  have hstorable : ∀ name config, call.keep name (m name) = some config →
      Json.Storable config ∧ config.isObject = true :=
    fun name config => Call.storable_keep hcall (h.storable name config)
  have hrefused {name : String} (hname : isName name = false) (hcall : call.changed? = some name) :
      Stage origin directory home (fun n => call.keep n (m n)) (call.after directory disk) := by
    rw [(refuses_of_not_name hname directory disk).2.2.2.2 call hcall]
    refine h.congr (fun other hother => Call.keep_of_changed_ne (fun heq => ?_) _) hstorable
    obtain rfl := Option.some.inj (hcall.symm.trans heq)
    exact absurd (hname.symm.trans hother) nofun
  cases call with
  | create name config =>
    cases hname : isName name with
    | true =>
      obtain ⟨later, hcreate, hlater⟩ := h.create hroom hname config
      simp only [Call.after, hcreate]
      exact ⟨hstorable, .inr hlater⟩
    | false => exact hrefused hname rfl
  | delete name =>
    cases hname : isName name with
    | true =>
      obtain ⟨config, later, -, hdelete, hlater⟩ | ⟨hkept, hdelete⟩ := h.delete hroom hname
      · simp only [Call.after, hdelete]
        exact ⟨hstorable, .inr hlater⟩
      · simp only [Call.after, hdelete]
        refine h.congr (fun other _ => ?_) hstorable
        by_cases heq : name = other
        · rw [← heq, hkept, Call.keep, if_pos rfl]
        · rw [Call.keep, if_neg heq]
    | false => exact hrefused hname rfl
  | load name => exact h
  | contains name => exact h
  | list => exact h

theorem elsewhere (place : Place) (text : String)
    (hplace : ∀ name, isName name = true → place ≠ home ++ [fileName name]) :
    disk.node? place = some (.file text) ↔ origin.node? place = some (.file text) := by
  obtain ⟨rfl, -⟩ | hkeeps := h.kept
  · exact Iff.rfl
  · exact hkeeps.elsewhere place text hplace

theorem actsAsMap : ActsAsMap origin directory home m disk where
  create name config hname := (h.create hroom hname config).imp fun _ hlater => hlater.1
  load name hname := h.load hroom hname
  contains name hname := h.contains hroom hname
  delete name hname := by
    obtain ⟨config, later, hkept, hdelete, -⟩ | ⟨hkept, hdelete⟩ := h.delete hroom hname
    · simp [hkept, hdelete]
    · simp [hkept, hdelete]
  list := h.list hroom
  apart call name hcall hname hother := by
    have hstep := h.step hroom hcall
    rw [hstep.load hroom hname, hstep.contains hroom hname, Call.keep_of_changed_ne hother]
    exact ⟨(h.load hroom hname).symm, (h.contains hroom hname).symm⟩
  refuses name hname := refuses_of_not_name hname directory disk
  reaches name place hname hplace := h.reaches hroom hname hplace
  elsewhere place text hplace := h.elsewhere hroom place text hplace

/-- The run: the step along a sequence of calls. -/
theorem run {calls : List Call} (hcalls : ∀ call ∈ calls, call.Storable) :
    Stage origin directory home (fun n => calls.foldl (fun kept call => call.keep n kept) (m n))
      (after directory calls disk) := by
  induction calls generalizing m disk with
  | nil => exact h
  | cons call calls ih =>
    exact ih (h.step hroom (hcalls call List.mem_cons_self)) fun later hlater =>
      hcalls later (List.mem_cons_of_mem _ hlater)

end Stage

/-- After any sequence of calls from an absent directory the checkpoints are the map that the sequence
describes. -/
theorem actsAsMap_after (hroom : Room d directory home) {calls : List Call}
    (hcalls : ∀ call ∈ calls, call.Storable) :
    ActsAsMap d directory home (kept calls) (after directory calls d) := by
  have hstart : Stage d directory home (fun _ => none) d := ⟨nofun, .inl ⟨rfl, fun _ _ => rfl⟩⟩
  exact (hstart.run hroom hcalls).actsAsMap hroom

/-- A configuration of a host with a name. -/
def hostNamed (name : String) : Value :=
  .object [("DEVICE_METADATA", .object [("localhost", .object [("hostname", .ofString name)])])]

/-- Calls on two names, of which one is the name of the file of the other, and on one that is no name. -/
def nestedNames : List Call :=
  [.create "day1" (hostNamed "one"), .create "day1.cp.json" (hostNamed "two"),
    .create "../day2" (hostNamed "three"), .delete "day1"]

theorem room_emptyHome : Room (.blank ["etc"]) "cps" ["etc", "cps"] := by
  have hmade : (Disk.blank ["etc"]).createDirectories "cps" =
      .ok ((Disk.blank ["etc"]).put ["etc", "cps"] .directory) := rfl
  refine room_of_createDirectories (by decide) (fun place hplace => ?_) hmade ⟨rfl, rfl⟩ rfl (fun name _ => ?_)
    (by decide)
  · obtain ⟨below, rfl⟩ := hplace
    simp [Disk.node?, Disk.blank, List.range_succ]
  · simp [Disk.node?, Disk.put, Disk.blank, List.range_succ, List.lookup_cons]

theorem actsAsMap_after_nestedNames :
    load "cps" "day1.cp.json" (after "cps" nestedNames (.blank ["etc"])) = .ok (hostNamed "two") ∧
      (∃ e, load "cps" "day1" (after "cps" nestedNames (.blank ["etc"])) = .error e) ∧
      contains "cps" "../day2" (after "cps" nestedNames (.blank ["etc"])) = false := by
  have hcalls : ∀ call ∈ nestedNames, call.Storable := by
    simp only [nestedNames, List.forall_mem_cons, List.not_mem_nil, false_imp_iff, implies_true, and_true]
    exact ⟨⟨⟨by decide, by decide, by decide⟩, rfl⟩, ⟨⟨by decide, by decide, by decide⟩, rfl⟩,
      ⟨⟨by decide, by decide, by decide⟩, rfl⟩, trivial⟩
  have hmap := actsAsMap_after room_emptyHome hcalls
  exact ⟨hmap.load "day1.cp.json" (by decide), ⟨_, hmap.load "day1" (by decide)⟩,
    (hmap.refuses "../day2" (by decide)).2.2.2.1⟩

end ConfigUpdate.Checkpoint
