import ConfigUpdate.Proofs.DiskFiles
import ConfigUpdate.Proofs.TextParts

/-!
# Directories of a disk

A directory that is created leaves every node as it is and adds directories alone (`Disk.Grows`), and to create
one that is there changes nothing. A path into a directory leads to the place below the place of the directory
(`Disk.Leads.of_inside`), and the names in a directory are those of the nodes right below its place
(`Disk.mem_namesIn`).
-/

namespace ConfigUpdate

namespace Disk

variable {d d' d₁ made : Disk} {p here place home : Place} {names : List String} {path directory file : String}

/-! ## Paths into directories -/

/-- The name stands for a node of its own in a path. -/
structure IsNodeName (file : String) : Prop where
  noSlash : '/' ∉ file.toList
  ne_empty : file ≠ ""
  ne_here : file ≠ "."
  ne_above : file ≠ ".."

theorem Leads.ne_empty (h : d.Leads directory home) : directory ≠ "" :=
  (checkPath_eq_ok_iff.1 h.1).2.1

theorem isAbsolute_inside (hdirectory : directory ≠ "") (file : String) :
    Path.isAbsolute (Path.inside directory file) = Path.isAbsolute directory := by
  obtain ⟨c, cs, hcs⟩ : ∃ c cs, directory.toList = c :: cs :=
    List.exists_cons_of_ne_nil fun h => hdirectory (String.toList_eq_nil_iff.1 h)
  unfold Path.inside Path.isAbsolute
  rw [if_neg hdirectory]
  split <;> simp [hcs]

theorem split_inside (hdirectory : directory ≠ "") (hfile : IsNodeName file) :
    (Text.split '/' (Path.inside directory file)).filter (fun name => name != "" && name != ".") =
      (Text.split '/' directory).filter (fun name => name != "" && name != ".") ++ [file] := by
  unfold Path.inside Text.split
  rw [if_neg hdirectory]
  by_cases hslash : Path.endsInSlash directory = true
  · obtain ⟨front, hfront⟩ : ∃ front, directory.toList = front ++ ['/'] := by
      have hlast : directory.toList.getLast? = some '/' := by simpa [Path.endsInSlash] using hslash
      exact ⟨_, (List.dropLast_append_getLast? '/' hlast).symm⟩
    simp [hslash, hfront, Text.splitChars_append, Text.splitChars_of_not_mem hfile.noSlash, Text.splitChars,
      List.filter_append, hfile.ne_empty, hfile.ne_here]
  · have hchars : (directory ++ "/" ++ file).toList = directory.toList ++ '/' :: file.toList := by simp
    simp [hslash, hchars, Text.splitChars_append, Text.splitChars_of_not_mem hfile.noSlash,
      List.filter_append, hfile.ne_empty, hfile.ne_here]

theorem route_inside (d : Disk) (hdirectory : directory ≠ "") (hfile : IsNodeName file) :
    d.route (Path.inside directory file) = ((d.route directory).1, (d.route directory).2 ++ [file]) := by
  simp only [route, isAbsolute_inside hdirectory, split_inside hdirectory hfile]

/-- A path into a directory leads right below it, and needs the directory. -/
theorem Leads.of_inside (h : d.Leads directory home) (hfile : IsNodeName file)
    (hinside : d.Leads (Path.inside directory file) place) :
    place = home ++ [file] ∧ d.node? home = some .directory := by
  have hwalk := hinside.2
  rw [route_inside d h.ne_empty hfile] at hwalk
  simp only [walk_append, h.2, Except.bind] at hwalk
  refine ⟨?_, directory_of_walk hwalk⟩
  obtain ⟨habove, -⟩ | ⟨-, -, hplace⟩ := walk_cons_eq_ok hwalk
  · exact absurd habove hfile.ne_above
  · exact (Except.ok.inj hplace).symm

theorem Leads.inside (h : d.Leads directory home) (hhome : d.node? home = some .directory)
    (hfile : IsNodeName file) (hsize : file.utf8ByteSize ≤ nameLimit)
    (hcheck : checkPath (Path.inside directory file) = .ok ()) :
    d.Leads (Path.inside directory file) (home ++ [file]) := by
  refine ⟨hcheck, ?_⟩
  rw [route_inside d h.ne_empty hfile]
  simp only [walk_append, h.2, Except.bind, walk, hhome, if_neg hfile.ne_above, if_neg (Nat.not_lt.2 hsize)]

/-! ## Creating directories -/

/-- Each place is listed once. -/
def Distinct (d : Disk) : Prop :=
  (d.nodes.map Prod.fst).Nodup

instance (d : Disk) : Decidable d.Distinct :=
  inferInstanceAs (Decidable (List.Nodup _))

theorem Distinct.drop (h : d.Distinct) (p : Place) : (d.drop p).Distinct :=
  h.sublist (List.filter_sublist.map _)

theorem Distinct.put (h : d.Distinct) (p : Place) (n : DiskNode) : (d.put p n).Distinct := by
  have hfront : ((d.nodes.filter (·.1 != p)).map Prod.fst).Nodup := h.drop p
  simp only [Distinct, Disk.put, List.map_append, List.map_cons, List.map_nil]
  refine List.nodup_append.2 ⟨hfront, by simp, fun q hq r hr => ?_⟩
  obtain ⟨e, he, rfl⟩ := List.mem_map.1 hq
  have hne : e.1 ≠ p := by simpa using (List.mem_filter.1 he).2
  rw [List.mem_singleton.1 hr]
  exact hne

/-- The later disk has the nodes of the earlier one, and more directories. -/
structure Grows (d d' : Disk) : Prop where
  workingPlace : d'.workingPlace = d.workingPlace
  node? : ∀ p, d'.node? p = d.node? p ∨ (d.node? p = none ∧ d'.node? p = some .directory)

theorem Grows.refl (d : Disk) : Grows d d :=
  ⟨rfl, fun _ => .inl rfl⟩

theorem Grows.trans (h : Grows d d₁) (h' : Grows d₁ d') : Grows d d' := by
  refine ⟨h'.workingPlace.trans h.workingPlace, fun p => ?_⟩
  obtain hsecond | ⟨hnone, hmade⟩ := h'.node? p
  · rw [hsecond]
    exact h.node? p
  · obtain hfirst | ⟨-, hdirectory⟩ := h.node? p
    · exact .inr ⟨hfirst.symm.trans hnone, hmade⟩
    · exact absurd (hdirectory.symm.trans hnone) nofun

theorem Grows.keepsDirectories (h : Grows d d') : KeepsDirectories d d' := by
  refine ⟨h.workingPlace, fun p hp => ?_⟩
  obtain hsame | ⟨-, hmade⟩ := h.node? p
  · exact hsame.trans hp
  · exact hmade

theorem Grows.file_iff (h : Grows d d') (p : Place) (text : String) :
    d'.node? p = some (.file text) ↔ d.node? p = some (.file text) := by
  obtain hsame | ⟨hnone, hmade⟩ := h.node? p
  · rw [hsame]
  · simp [hnone, hmade]

theorem grows_put (h : d.node? p = none) : Grows d (d.put p .directory) := by
  have hfree : d.node? p ≠ some .directory := by simp [h]
  refine ⟨rfl, fun q => ?_⟩
  rw [node?_put d (ne_nil_of_node? hfree)]
  by_cases hq : q = p
  · exact .inr ⟨hq ▸ h, if_pos hq⟩
  · exact .inl (if_neg hq)

/-- The step of a way that is created. -/
theorem createWay_cons_eq_ok {name : String} (h : d.createWay here (name :: names) = .ok made) :
    (name = ".." ∧ d.createWay here.dropLast names = .ok made) ∨
      (d.node? (here ++ [name]) = some .directory ∧ d.createWay (here ++ [name]) names = .ok made) ∨
      (d.node? (here ++ [name]) = none ∧
        (d.put (here ++ [name]) .directory).createWay (here ++ [name]) names = .ok made) := by
  simp only [createWay] at h
  by_cases habove : name = ".."
  · rw [if_pos habove] at h
    exact .inl ⟨habove, h⟩
  · rw [if_neg habove] at h
    by_cases hsize : nameLimit < name.utf8ByteSize
    · rw [if_pos hsize] at h
      cases h
    · rw [if_neg hsize] at h
      split at h
      · exact .inr (.inl ⟨by assumption, h⟩)
      · cases h
      · exact .inr (.inr ⟨by assumption, h⟩)

theorem grows_createWay (h : d.createWay here names = .ok made) : Grows d made := by
  induction names generalizing d here with
  | nil =>
    cases h
    exact .refl _
  | cons name names ih =>
    obtain ⟨-, h⟩ | ⟨-, h⟩ | ⟨hnone, h⟩ := createWay_cons_eq_ok h
    · exact ih h
    · exact ih h
    · exact (grows_put hnone).trans (ih h)

theorem Distinct.createWay (hdistinct : d.Distinct) (h : d.createWay here names = .ok made) :
    made.Distinct := by
  induction names generalizing d here with
  | nil =>
    cases h
    exact hdistinct
  | cons name names ih =>
    obtain ⟨-, h⟩ | ⟨-, h⟩ | ⟨-, h⟩ := createWay_cons_eq_ok h
    · exact ih hdistinct h
    · exact ih hdistinct h
    · exact ih (hdistinct.put _ _) h

theorem exists_createWay (h : d.createDirectories path = .ok made) :
    ∃ here names, d.createWay here names = .ok made := by
  unfold createDirectories at h
  split at h
  · cases h
    exact ⟨[], [], rfl⟩
  · obtain ⟨⟨⟩, -, h⟩ := exists_of_bind_eq_ok h
    exact ⟨_, _, h⟩

/-- A way through directories is there already. -/
theorem createWay_of_walk (h : d.walk here names = .ok place) (hplace : d.node? place = some .directory) :
    d.createWay here names = .ok d := by
  induction names generalizing here with
  | nil => rfl
  | cons name names ih =>
    obtain ⟨rfl, hrest⟩ | ⟨hup, hsize, hrest⟩ := walk_cons_eq_ok h
    · simp only [createWay, if_true]
      exact ih hrest
    · have hnext : d.node? (here ++ [name]) = some .directory := by
        cases names with
        | nil =>
          rw [Except.ok.inj hrest]
          exact hplace
        | cons => exact directory_of_walk hrest
      simp only [createWay, if_neg hup, if_neg (Nat.not_lt.2 hsize), hnext]
      exact ih hrest

theorem createDirectories_of_leads (h : d.Leads path place) (hplace : d.node? place = some .directory) :
    d.createDirectories path = .ok d := by
  unfold createDirectories
  rw [if_neg h.ne_empty, h.1]
  exact createWay_of_walk h.2 hplace

/-! ## What is not there yet -/

/-- Before directories were made the way was the same, or it ended early. -/
theorem Grows.walk (hgrows : Grows d d') (h : d'.walk here names = .ok place) :
    d.walk here names = .ok place ∨ d.walk here names = .error .notFound := by
  induction names generalizing here with
  | nil => exact .inl h
  | cons name names ih =>
    obtain hsame | ⟨hnone, -⟩ := hgrows.node? here
    · have hhere := hsame.symm.trans (directory_of_walk h)
      obtain ⟨rfl, hrest⟩ | ⟨hup, hsize, hrest⟩ := walk_cons_eq_ok h
      · simpa only [Disk.walk, hhere, if_true] using ih hrest
      · simpa only [Disk.walk, hhere, if_neg hup, if_neg (Nat.not_lt.2 hsize)] using ih hrest
    · exact .inr (by simp only [Disk.walk, hnone])

/-- The path leads nowhere, or to a place where nothing stands. -/
def Missing (d : Disk) (path : String) : Prop :=
  d.locate path = .error .notFound ∨ ∃ place, d.locate path = .ok place ∧ d.node? place = none

theorem Leads.missing (h : d.Leads path place) (hnone : d.node? place = none) : d.Missing path :=
  .inr ⟨place, locate_eq_ok_iff.2 ⟨h, fun _ htext => absurd (hnone.symm.trans htext) nofun⟩, hnone⟩

theorem Grows.missing (hgrows : Grows d d') (h : d'.Leads path place) (hnone : d.node? place = none) :
    d.Missing path := by
  have hroute : d'.route path = d.route path := by simp only [route, hgrows.workingPlace]
  have hwalk := h.2
  rw [hroute] at hwalk
  obtain hsame | hend := hgrows.walk hwalk
  · exact Leads.missing ⟨h.1, hsame⟩ hnone
  · refine .inl ?_
    simp only [locate, h.1, hend, bind, Except.bind]

theorem Missing.fileText (h : d.Missing path) : d.fileText path = .error .notFound := by
  obtain hplace | ⟨place, hplace, hnone⟩ := h
  · simp only [Disk.fileText, hplace, bind, Except.bind]
  · simp only [Disk.fileText, hplace, bind, Except.bind, hnone]

theorem Missing.removeFile (h : d.Missing path) : d.removeFile path = .error .notFound := by
  obtain hplace | ⟨place, hplace, hnone⟩ := h
  · simp only [Disk.removeFile, hplace, bind, Except.bind]
  · simp only [Disk.removeFile, hplace, bind, Except.bind, hnone]

theorem Missing.listDirectory (h : d.Missing path) : d.listDirectory path = .error .notFound := by
  obtain hplace | ⟨place, hplace, hnone⟩ := h
  · simp only [Disk.listDirectory, hplace, bind, Except.bind]
  · simp only [Disk.listDirectory, hplace, bind, Except.bind, hnone]

/-! ## Listing directories -/

/-- The names of the nodes right below a place. -/
def namesIn (d : Disk) (home : Place) : List String :=
  d.nodes.filterMap fun n => if n.1.dropLast = home then n.1.getLast? else none

theorem listDirectory_of_leads (h : d.Leads path home) (hhome : d.node? home = some .directory) :
    d.listDirectory path = .ok (d.namesIn home) := by
  have hplace : d.locate path = .ok home :=
    locate_eq_ok_iff.2 ⟨h, fun _ htext => absurd (hhome.symm.trans htext) nofun⟩
  simp only [listDirectory, hplace, bind, Except.bind, hhome]
  rfl

theorem nameBelow_eq_some_iff {q : Place} :
    (if q.dropLast = home then q.getLast? else none) = some file ↔ q = home ++ [file] := by
  constructor
  · intro h
    split at h
    · rename_i hhome
      rw [← hhome]
      exact (List.dropLast_append_getLast? file h).symm
    · cases h
  · rintro rfl
    simp

theorem mem_namesIn : file ∈ d.namesIn home ↔ (d.node? (home ++ [file])).isSome = true := by
  simp only [namesIn, List.mem_filterMap, nameBelow_eq_some_iff]
  have hne : home ++ [file] ≠ [] := by simp
  rw [Disk.node?, if_neg hne, List.lookup_isSome_iff]
  exact exists_congr fun e => and_congr_right fun _ => by rw [beq_iff_eq, eq_comm]

theorem Distinct.nodup_namesIn (h : d.Distinct) (home : Place) : (d.namesIn home).Nodup := by
  have hpairs : d.nodes.Pairwise fun m n => m.1 ≠ n.1 := List.pairwise_map.1 h
  refine List.pairwise_filterMap.2 (hpairs.imp fun {m n} hne file hfile file' hfile' heq => hne ?_)
  rw [nameBelow_eq_some_iff.1 hfile, nameBelow_eq_some_iff.1 hfile', heq]

end Disk

end ConfigUpdate
