import ConfigUpdate.Checkpoint
import ConfigUpdate.Proofs.DiskDirectories

/-!
# Names of checkpoints

The file of a checkpoint has the name of the checkpoint in its own, and gives it back
(`Checkpoint.nameOfFile?_eq_some_iff`). The name of the file is one of a node, so that the path of the file
leads right below the directory, and it is short enough for any disk.
-/

namespace ConfigUpdate.Checkpoint

variable {directory name other file : String}

/-- The name of the file of a checkpoint. -/
def fileName (name : String) : String :=
  name ++ fileEnding

theorem toList_fileName (name : String) : (fileName name).toList = name.toList ++ fileEnding.toList :=
  String.toList_append

theorem fileName_injective (h : fileName name = fileName other) : name = other := by
  have hchars := congrArg String.toList h
  rw [toList_fileName, toList_fileName] at hchars
  exact String.toList_injective (List.append_cancel_right hchars)

theorem chars_of_isName (h : isName name = true) :
    (∀ c ∈ name.toList, canContinue c = true) ∧ name.toList.length ≤ nameLimit := by
  unfold isName at h
  split at h
  · cases h
  · rename_i c cs hchars
    simp only [Bool.and_eq_true, List.all_eq_true, decide_eq_true_eq] at h
    obtain ⟨⟨hstart, hrest⟩, hlength⟩ := h
    have hfirst : canContinue c = true := by
      have halnum : c.isAlphanum = true := hstart
      simp [canContinue, halnum]
    rw [hchars]
    exact ⟨List.forall_mem_cons.2 ⟨hfirst, hrest⟩, hlength⟩

/-- Letters and digits stand among the first characters, in one of three ranges. -/
theorem val_le_of_isAlphanum {c : Char} (h : c.isAlphanum = true) : c.val ≤ 127 := by
  have hranges : (decide (65 ≤ c.val ∧ c.val ≤ 90) || decide (97 ≤ c.val) && decide (c.val ≤ 122) ||
      decide (48 ≤ c.val) && decide (c.val ≤ 57)) = true := h
  simp only [Bool.or_eq_true, Bool.and_eq_true, decide_eq_true_eq] at hranges
  obtain (⟨-, hle⟩ | ⟨-, hle⟩) | ⟨-, hle⟩ := hranges
  all_goals exact UInt32.le_trans hle (by decide)

/-- The characters of names take one byte each. -/
theorem utf8Size_eq_one {c : Char} (h : canContinue c = true) : c.utf8Size = 1 := by
  rw [Char.utf8Size_eq_one_iff]
  simp only [canContinue, Bool.or_eq_true, beq_iff_eq] at h
  obtain ((halnum | rfl) | rfl) | rfl := h
  · exact val_le_of_isAlphanum halnum
  all_goals decide

theorem utf8Len_eq_length {cs : List Char} (h : ∀ c ∈ cs, canContinue c = true) :
    String.utf8Len cs = cs.length := by
  induction cs with
  | nil => rfl
  | cons c cs ih =>
    have hfirst := utf8Size_eq_one (h c List.mem_cons_self)
    rw [String.utf8Len_cons, hfirst, ih (List.forall_mem_of_forall_mem_cons h)]
    rfl

theorem utf8ByteSize_fileName (h : isName name = true) : (fileName name).utf8ByteSize ≤ 136 := by
  obtain ⟨hchars, hlength⟩ := chars_of_isName h
  have hsize : name.utf8ByteSize = name.toList.length := by
    rw [← utf8Len_eq_length hchars, ← String.utf8ByteSize_ofList, String.ofList_toList]
  have hending : fileEnding.utf8ByteSize = 8 := rfl
  rw [fileName, String.utf8ByteSize_append, hsize, hending]
  exact Nat.add_le_add_right hlength 8

theorem isNodeName_fileName (h : isName name = true) : Disk.IsNodeName (fileName name) := by
  have hchars := toList_fileName name
  have hlong (short : String) (hshort : short.toList.length < fileEnding.toList.length) :
      fileName name ≠ short := by
    rintro rfl
    rw [hchars, List.length_append] at hshort
    omega
  refine ⟨?_, hlong "" (by decide), hlong "." (by decide), hlong ".." (by decide)⟩
  rw [hchars, List.mem_append, not_or]
  exact ⟨fun hmem => absurd ((chars_of_isName h).1 '/' hmem) (by decide), by decide⟩

theorem nameOfFile?_eq_some_iff : nameOfFile? file = some name ↔ isName name = true ∧ file = fileName name := by
  simp only [nameOfFile?, Option.ite_none_right_eq_some, Option.some.injEq, List.isSuffixOf_iff_suffix]
  constructor
  · rintro ⟨⟨front, hfront⟩, hname, rfl⟩
    refine ⟨hname, String.toList_injective ?_⟩
    rw [toList_fileName, ← hfront]
    simp
  · rintro ⟨hname, rfl⟩
    rw [toList_fileName]
    simp [hname]

/-! ## Paths -/

/-- The path of a checkpoint is the directory, with a slash if it needs one, and the name of the file. -/
theorem exists_filePath (directory name : String) :
    ∃ front, filePath directory name = front ++ fileName name ∧
      (front = "" ∨ front = directory ∨ front = directory ++ "/") := by
  unfold filePath Path.inside
  split
  · exact ⟨"", by simp [fileName], .inl rfl⟩
  · split
    · exact ⟨directory, rfl, .inr (.inl rfl)⟩
    · exact ⟨directory ++ "/", rfl, .inr (.inr rfl)⟩

theorem checkPath_filePath (hname : isName name = true) (hcheck : Disk.checkPath directory = .ok ())
    (hshort : directory.utf8ByteSize + 137 < Disk.pathLimit) :
    Disk.checkPath (filePath directory name) = .ok () := by
  obtain ⟨hchars, -, -⟩ := Disk.checkPath_eq_ok_iff.1 hcheck
  obtain ⟨front, hpath, hfront⟩ := exists_filePath directory name
  have hsize := utf8ByteSize_fileName hname
  have hfile : Char.ofNat 0 ∉ (fileName name).toList := by
    rw [toList_fileName, List.mem_append, not_or]
    exact ⟨fun hmem => absurd ((chars_of_isName hname).1 _ hmem) (by decide), by decide⟩
  rw [Disk.checkPath_eq_ok_iff, hpath, String.toList_append, List.mem_append, not_or,
    String.utf8ByteSize_append]
  refine ⟨⟨?_, hfile⟩, fun hempty => ?_, ?_⟩
  · obtain rfl | rfl | rfl := hfront
    · decide
    · exact hchars
    · simpa [String.toList_append] using hchars
  · exact (isNodeName_fileName hname).ne_empty (String.append_eq_empty_iff.1 hempty).2
  · have hfrontSize : front.utf8ByteSize ≤ directory.utf8ByteSize + 1 := by
      obtain rfl | rfl | rfl := hfront
      · exact Nat.zero_le _
      · exact Nat.le_succ _
      · rw [String.utf8ByteSize_append]
        exact Nat.le_refl _
    omega

theorem asksDirectory_filePath (directory name : String) :
    Disk.asksDirectory (filePath directory name) = false := by
  obtain ⟨front, hpath, -⟩ := exists_filePath directory name
  have hlast : (filePath directory name).toList.getLast? = some 'n' := by
    rw [hpath, String.toList_append, toList_fileName, ← List.append_assoc, List.getLast?_append]
    rfl
  have hsuffix : ['/', '.'].isSuffixOf (filePath directory name).toList = false := by
    rw [Bool.eq_false_iff, ne_eq, List.isSuffixOf_iff_suffix]
    rintro ⟨chars, hchars⟩
    rw [← hchars, List.getLast?_append] at hlast
    exact absurd hlast (by simp)
  simp only [Disk.asksDirectory, Path.endsInSlash, hlast, hsuffix]
  decide

/-! ## Lists of names -/

theorem mem_names {files : List String} :
    name ∈ (files.filterMap nameOfFile?).mergeSort (fun a b => a ≤ b) ↔
      isName name = true ∧ fileName name ∈ files := by
  rw [(List.mergeSort_perm _ _).mem_iff]
  simp only [List.mem_filterMap, nameOfFile?_eq_some_iff]
  exact ⟨fun ⟨_, hfile, hname, heq⟩ => ⟨hname, heq ▸ hfile⟩, fun ⟨hname, hfile⟩ => ⟨_, hfile, hname, rfl⟩⟩

theorem pairwise_names {files : List String} (h : files.Nodup) :
    ((files.filterMap nameOfFile?).mergeSort fun a b => a ≤ b).Pairwise (· < ·) := by
  have hnodup : (files.filterMap nameOfFile?).Nodup := h.filterMap fun file file' name hfile hfile' => by
    rw [(nameOfFile?_eq_some_iff.1 hfile).2, (nameOfFile?_eq_some_iff.1 hfile').2]
  have hsorted := @List.pairwise_mergeSort String (fun a b => decide (a ≤ b))
    (fun a b c hab hbc => decide_eq_true (String.le_trans (of_decide_eq_true hab) (of_decide_eq_true hbc)))
    (fun a b => by simpa using String.le_total a b) (files.filterMap nameOfFile?)
  have hperm := List.mergeSort_perm (files.filterMap nameOfFile?) fun a b => decide (a ≤ b)
  exact (hsorted.and (hperm.nodup_iff.2 hnodup)).imp fun hab =>
    Std.lt_of_le_of_ne (of_decide_eq_true hab.1) hab.2

end ConfigUpdate.Checkpoint
