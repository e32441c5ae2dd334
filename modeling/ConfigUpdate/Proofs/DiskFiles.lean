import ConfigUpdate.Disk
import ConfigUpdate.Proofs.ObjectStep

/-!
# Files of a disk

Where a path leads depends on the directories alone (`Disk.Leads.keep`), so a change of one file changes no
way: `Disk.FileChange.leads_iff`. A file that is written holds what was written: `Disk.fileText_writeFile`.
-/

namespace ConfigUpdate

namespace Disk

variable {d d' : Disk} {p q here place place' : Place} {names more : List String} {path text : String}

/-! ## Nodes -/

theorem lookup_filter_ne (nodes : List (Place × DiskNode)) (h : q ≠ p) :
    (nodes.filter (·.1 != p)).lookup q = nodes.lookup q := by
  induction nodes with
  | nil => rfl
  | cons e nodes ih =>
    by_cases he : e.1 = p
    · have hq : (q == e.1) = false := by simp [he, h]
      rw [List.filter_cons_of_neg (by simp [he]), List.lookup_cons, hq, ih]
    · rw [List.filter_cons_of_pos (by simp [he]), List.lookup_cons, List.lookup_cons, ih]

theorem lookup_filter_self (nodes : List (Place × DiskNode)) (p : Place) :
    (nodes.filter (·.1 != p)).lookup p = none := by
  rw [List.lookup_eq_none_iff]
  intro e he
  have hne := (List.mem_filter.1 he).2
  simp only [bne_iff_ne, ne_eq] at hne
  simpa using Ne.symm hne

theorem node?_put (d : Disk) (hp : p ≠ []) (n : DiskNode) (q : Place) :
    (d.put p n).node? q = if q = p then some n else d.node? q := by
  unfold node? put
  rw [List.lookup_append]
  by_cases hq : q = p
  · subst hq
    simp [hp, lookup_filter_self]
  · have hbeq : (q == p) = false := by simp [hq]
    simp [hq, lookup_filter_ne d.nodes hq, List.lookup_cons, hbeq]

theorem node?_drop (d : Disk) (hp : p ≠ []) (q : Place) :
    (d.drop p).node? q = if q = p then none else d.node? q := by
  unfold node? drop
  by_cases hq : q = p
  · subst hq
    simp [hp, lookup_filter_self]
  · simp [hq, lookup_filter_ne d.nodes hq]

/-! ## Ways -/

theorem checkPath_eq_ok_iff : checkPath path = .ok () ↔
    Char.ofNat 0 ∉ path.toList ∧ path ≠ "" ∧ path.utf8ByteSize < pathLimit := by
  unfold checkPath
  by_cases hchars : Char.ofNat 0 ∈ path.toList
  · simp [hchars]
  · by_cases hempty : path = ""
    · simp [hempty]
    · by_cases hsize : path.utf8ByteSize < pathLimit
      · simp [hchars, hempty, hsize, Nat.not_le.2 hsize]
      · simp [hchars, hempty, hsize, Nat.not_lt.1 hsize]

/-- The path leads to the place, where something may stand or not. -/
def Leads (d : Disk) (path : String) (place : Place) : Prop :=
  checkPath path = .ok () ∧ d.walk (d.route path).1 (d.route path).2 = .ok place

theorem Leads.unique (h : d.Leads path place) (h' : d.Leads path place') : place = place' :=
  Except.ok.inj (h.2.symm.trans h'.2)

/-- A way that goes on starts in a directory. -/
theorem directory_of_walk {name : String} (h : d.walk here (name :: names) = .ok place) :
    d.node? here = some .directory := by
  unfold walk at h
  split at h
  · cases h
  · cases h
  · assumption

/-- The step of a way to the directory above or into a named place. -/
theorem walk_cons_eq_ok {name : String} (h : d.walk here (name :: names) = .ok place) :
    (name = ".." ∧ d.walk here.dropLast names = .ok place) ∨
      (name ≠ ".." ∧ name.utf8ByteSize ≤ nameLimit ∧ d.walk (here ++ [name]) names = .ok place) := by
  have hhere := directory_of_walk h
  simp only [walk, hhere] at h
  split at h
  · exact .inl ⟨by assumption, h⟩
  · split at h
    · cases h
    · exact .inr ⟨by assumption, by omega, h⟩

theorem walk_append (d : Disk) (here : Place) (names more : List String) :
    d.walk here (names ++ more) = (d.walk here names).bind fun place => d.walk place more := by
  induction names generalizing here with
  | nil => rfl
  | cons name names ih =>
    simp only [List.cons_append, walk]
    split
    · rfl
    · rfl
    · split
      · exact ih _
      · split
        · rfl
        · exact ih _

/-- Every directory of one disk is a directory of the other. -/
structure KeepsDirectories (d d' : Disk) : Prop where
  workingPlace : d'.workingPlace = d.workingPlace
  directory : ∀ p, d.node? p = some .directory → d'.node? p = some .directory

theorem KeepsDirectories.walk_eq_ok (hkeeps : KeepsDirectories d d') (h : d.walk here names = .ok place) :
    d'.walk here names = .ok place := by
  induction names generalizing here with
  | nil => exact h
  | cons name names ih =>
    have hhere := hkeeps.directory here (directory_of_walk h)
    obtain ⟨rfl, hrest⟩ | ⟨hup, hsize, hrest⟩ := walk_cons_eq_ok h
    · simp only [walk, hhere, if_true]
      exact ih hrest
    · simp only [walk, hhere, if_neg hup, if_neg (Nat.not_lt.2 hsize)]
      exact ih hrest

theorem Leads.keep (h : d.Leads path place) (hkeeps : KeepsDirectories d d') : d'.Leads path place := by
  refine ⟨h.1, ?_⟩
  have hroute : d'.route path = d.route path := by simp only [route, hkeeps.workingPlace]
  rw [hroute]
  exact hkeeps.walk_eq_ok h.2

/-! ## Files -/

/-- A path leads to a place, unless it asks for a directory and a file stands there. -/
theorem locate_eq_ok_iff :
    d.locate path = .ok place ↔ d.Leads path place ∧
      ∀ text, d.node? place = some (.file text) → asksDirectory path = false := by
  constructor
  · intro h
    obtain ⟨⟨⟩, hcheck, h⟩ := exists_of_bind_eq_ok h
    obtain ⟨reached, hwalk, h⟩ := exists_of_bind_eq_ok h
    split at h
    · rename_i text hnode
      split at h
      · cases h
      · rename_i hasks
        cases h
        exact ⟨⟨hcheck, hwalk⟩, fun _ _ => by simpa using hasks⟩
    · rename_i hnode
      cases h
      exact ⟨⟨hcheck, hwalk⟩, fun text htext => absurd htext (hnode text)⟩
  · rintro ⟨⟨hcheck, hwalk⟩, hasks⟩
    simp only [locate, hcheck, hwalk, bind, Except.bind]
    split
    · rename_i text hnode
      rw [if_neg (by simp [hasks text hnode])]
    · rfl

theorem fileText_eq_ok_iff :
    d.fileText path = .ok text ↔
      ∃ place, d.Leads path place ∧ asksDirectory path = false ∧ d.node? place = some (.file text) := by
  constructor
  · intro h
    obtain ⟨place, hplace, h⟩ := exists_of_bind_eq_ok h
    obtain ⟨hleads, hasks⟩ := locate_eq_ok_iff.1 hplace
    split at h
    · rename_i text' hnode
      cases h
      exact ⟨place, hleads, hasks _ hnode, hnode⟩
    · cases h
    · cases h
  · rintro ⟨place, hleads, hasks, hnode⟩
    have hplace : d.locate path = .ok place := locate_eq_ok_iff.2 ⟨hleads, fun _ _ => hasks⟩
    simp only [fileText, hplace, bind, Except.bind, hnode]

theorem writeFile_eq_ok_iff :
    d.writeFile path text = .ok d' ↔ ∃ place, d.Leads path place ∧ asksDirectory path = false ∧
      d.node? place ≠ some .directory ∧ d' = d.put place (.file text) := by
  constructor
  · intro h
    obtain ⟨place, hplace, h⟩ := exists_of_bind_eq_ok h
    obtain ⟨hleads, hasks⟩ := locate_eq_ok_iff.1 hplace
    split at h
    · cases h
    · rename_i text' hnode
      cases h
      exact ⟨place, hleads, hasks _ hnode, by simp [hnode], rfl⟩
    · rename_i hnode
      split at h
      · cases h
      · rename_i hasks
        cases h
        exact ⟨place, hleads, by simpa using hasks, by simp [hnode], rfl⟩
  · rintro ⟨place, hleads, hasks, hnode, rfl⟩
    have hplace : d.locate path = .ok place := locate_eq_ok_iff.2 ⟨hleads, fun _ _ => hasks⟩
    simp only [writeFile, hplace, bind, Except.bind]
    split
    · rename_i hdirectory
      exact absurd hdirectory hnode
    · rfl
    · rw [if_neg (by simp [hasks])]

theorem removeFile_eq_ok_iff :
    d.removeFile path = .ok d' ↔ ∃ place text, d.Leads path place ∧ asksDirectory path = false ∧
      d.node? place = some (.file text) ∧ d' = d.drop place := by
  constructor
  · intro h
    obtain ⟨place, hplace, h⟩ := exists_of_bind_eq_ok h
    obtain ⟨hleads, hasks⟩ := locate_eq_ok_iff.1 hplace
    split at h
    · rename_i text hnode
      cases h
      exact ⟨place, text, hleads, hasks _ hnode, hnode, rfl⟩
    · cases h
    · cases h
  · rintro ⟨place, text, hleads, hasks, hnode, rfl⟩
    have hplace : d.locate path = .ok place := locate_eq_ok_iff.2 ⟨hleads, fun _ _ => hasks⟩
    simp only [removeFile, hplace, bind, Except.bind, hnode]

/-! ## Changing one file -/

/-- The disks differ at most at one place, and no directory stands there on either. -/
structure FileChange (d d' : Disk) (place : Place) : Prop where
  workingPlace : d'.workingPlace = d.workingPlace
  before : d.node? place ≠ some .directory
  after : d'.node? place ≠ some .directory
  others : ∀ q, q ≠ place → d'.node? q = d.node? q

namespace FileChange

variable (h : FileChange d d' place)

include h

theorem symm : FileChange d' d place :=
  ⟨h.workingPlace.symm, h.after, h.before, fun q hq => (h.others q hq).symm⟩

theorem keepsDirectories : KeepsDirectories d d' := by
  refine ⟨h.workingPlace, fun p hp => ?_⟩
  rw [h.others p (fun heq => h.before (heq ▸ hp)), hp]

theorem leads_iff : d'.Leads path p ↔ d.Leads path p :=
  ⟨fun hleads => hleads.keep h.symm.keepsDirectories, fun hleads => hleads.keep h.keepsDirectories⟩

end FileChange

theorem ne_nil_of_node? (h : d.node? p ≠ some .directory) : p ≠ [] := by
  rintro rfl
  exact h rfl

theorem fileChange_put (h : d.node? p ≠ some .directory) (text : String) :
    FileChange d (d.put p (.file text)) p where
  workingPlace := rfl
  before := h
  after := by simp [node?_put d (ne_nil_of_node? h)]
  others q hq := by rw [node?_put d (ne_nil_of_node? h), if_neg hq]

theorem fileChange_drop (h : d.node? p ≠ some .directory) : FileChange d (d.drop p) p where
  workingPlace := rfl
  before := h
  after := by simp [node?_drop d (ne_nil_of_node? h)]
  others q hq := by rw [node?_drop d (ne_nil_of_node? h), if_neg hq]

theorem fileText_writeFile (h : d.writeFile path text = .ok d') : d'.fileText path = .ok text := by
  obtain ⟨place, hleads, hasks, hnode, rfl⟩ := writeFile_eq_ok_iff.1 h
  refine fileText_eq_ok_iff.2 ⟨place, (fileChange_put hnode text).leads_iff.2 hleads, hasks, ?_⟩
  rw [node?_put d (ne_nil_of_node? hnode), if_pos rfl]

/-- A file that could be written can be written again. -/
theorem exists_writeFile_again (h : d.writeFile path text = .ok d') (text' : String) :
    ∃ d'', d'.writeFile path text' = .ok d'' := by
  obtain ⟨place, hleads, hasks, hnode, rfl⟩ := writeFile_eq_ok_iff.1 h
  have hchange := fileChange_put hnode text
  exact ⟨_, writeFile_eq_ok_iff.2 ⟨place, hchange.leads_iff.2 hleads, hasks, hchange.after, rfl⟩⟩

end Disk

end ConfigUpdate
