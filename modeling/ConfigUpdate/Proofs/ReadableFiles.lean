import ConfigUpdate.Proofs.FileStore
import ConfigUpdate.Proofs.NumbersInRange

/-!
# Files that stay readable

A write into a file is refused only by the disk, while what is read may nest no deeper than a document may. So a
write that succeeds leaves a file that can be read again exactly if what it writes does not nest too deep
(`Store.config_write`), and along writes that do not the file stays readable, whatever their outcome
(`Store.readable_writeAll`). Every other condition on what is read holds by itself: names are quoted, and numbers
in range are read from their texts.
-/

namespace ConfigUpdate

/-- The names of members are in order and the numbers in range, as they are in every value that is read. -/
structure Value.Regular (v : Value) : Prop where
  wellFormed : v.WellFormed
  leaves : v.Leaves Scalar.Fits

namespace Value.Regular

variable {v new : Value} {ms : List (String × Value)}

theorem member (h : (object ms).Regular) {name : String} (hget : Dictionary.get? ms name = some v) : v.Regular :=
  ⟨(wellFormed_object_iff.1 h.wellFormed).2 name v hget,
    leaves_object_iff.1 h.leaves (name, v) (Dictionary.mem_of_get? hget)⟩

theorem insert (h : (object ms).Regular) (hnew : new.Regular) (key : String) :
    (object (Dictionary.insert ms key new)).Regular :=
  ⟨wellFormed_insert h.wellFormed hnew.wellFormed key,
    leaves_object_iff.2 ((Dictionary.forall_mem_insert_iff (leaves_object_iff.1 h.leaves)).2 hnew.leaves)⟩

theorem erase (h : (object ms).Regular) (key : String) : (object (Dictionary.erase ms key)).Regular :=
  ⟨wellFormed_erase h.wellFormed key, leaves_object_iff.2 fun m hm =>
    leaves_object_iff.1 h.leaves m ((Dictionary.erase_sublist ms key).subset hm)⟩

theorem empty : (object []).Regular :=
  ⟨wellFormed_empty, trivial⟩

/-- The tables of a tree are as regular as the tree. -/
theorem ofTree (h : v.Regular) : (Tables.ofTree v).toTree.Regular := by
  cases v with
  | object ms => exact h
  | scalar s => exact empty
  | array xs => exact empty

end Value.Regular

theorem Json.regular_of_parse? {text : String} {v : Value} (h : parse? text = some v) : v.Regular :=
  ⟨wellFormed_of_parse? h, leaves_of_parse? h⟩

/-- The entries are those of a table that is an object, or there are none. -/
theorem Tables.entries_eq_or (ts : Tables) (table : String) :
    ts.entries table = [] ∨ Dictionary.get? ts table = some (.object (ts.entries table)) := by
  unfold entries
  rcases hget : Dictionary.get? ts table with _ | (s | xs | es)
  · exact .inl rfl
  · exact .inl rfl
  · exact .inl rfl
  · exact .inr rfl

namespace Write

variable {w : Write} {ts : Tables} {n : Nat}

/-- What is written is regular. -/
def Regular : Write → Prop
  | setEntry _ _ v | setTable _ v => v.Regular
  | deleteEntry _ _ | deleteTable _ => True

/-- How deep what is written nests in the configuration. -/
def depth : Write → Nat
  | setEntry _ _ v => v.depth + 2
  | setTable _ v => v.depth + 1
  | deleteEntry _ _ | deleteTable _ => 0

/-- A write keeps the configuration regular. -/
theorem regular_run (hw : w.Regular) (hts : ts.toTree.Regular) : (w.run ts).toTree.Regular := by
  cases w with
  | setEntry table key value =>
    have hentries : (Value.object (ts.entries table)).Regular := by
      obtain hnil | hget := ts.entries_eq_or table
      · rw [hnil]
        exact Value.Regular.empty
      · exact hts.member hget
    exact hts.insert (hentries.insert hw key) table
  | deleteEntry table key =>
    simp only [run]
    split
    · rename_i es hget
      exact hts.insert ((hts.member hget).erase key) table
    · exact hts
  | deleteTable table => exact hts.erase table
  | setTable table value => exact hts.insert hw table

/-- A write keeps the depth of a configuration below a bound exactly if what it writes stays below. -/
theorem depth_run_le_iff (hts : ts.toTree.depth ≤ n) : (w.run ts).toTree.depth ≤ n ↔ w.depth ≤ n := by
  cases w with
  | setEntry table key value =>
    show (Value.object (Dictionary.insert ts table
      (.object (Dictionary.insert (ts.entries table) key value)))).depth ≤ n ↔ value.depth + 2 ≤ n
    rw [Value.depth_insert_le_iff hts]
    obtain hnil | hget := ts.entries_eq_or table
    · rw [hnil]
      show max value.depth 0 + 1 + 1 ≤ n ↔ value.depth + 2 ≤ n
      omega
    · have hentries := Value.depth_lt_of_get? hget
      have hinsert : (Value.object (Dictionary.insert (ts.entries table) key value)).depth ≤ n - 1
          ↔ value.depth + 1 ≤ n - 1 := Value.depth_insert_le_iff (Nat.le_sub_one_of_lt (hentries.trans_le hts))
      omega
  | deleteEntry table key =>
    refine iff_of_true ?_ (Nat.zero_le n)
    simp only [run]
    split
    · rename_i es hget
      have hentries := (Value.depth_lt_of_get? hget).trans_le hts
      exact (Value.depth_insert_le_iff hts).2 ((Value.depth_erase_le es key).trans_lt hentries)
    · exact hts
  | deleteTable table => exact iff_of_true ((Value.depth_erase_le ts table).trans hts) (Nat.zero_le n)
  | setTable table value => exact Value.depth_insert_le_iff hts

end Write

namespace Store

open Json (depthLimit)

variable {path : String} {d d' : Disk} {w : Write} {ws : List Write} {tree : Value}

/-- A file with a tree is read with every number as it is read from its text, unless the tree nests too deep. -/
theorem config_writeTree (hregular : tree.Regular) (h : d.writeTree path tree = .ok d') :
    (file path).config d' = if tree.depth ≤ depthLimit then .ok (tree.mapLeaves Scalar.reread)
      else .error (.unreadable path) := by
  have hparse : Json.parse? (Json.pretty tree ++ "\n")
      = if tree.depth ≤ depthLimit then some (tree.mapLeaves Scalar.reread) else none :=
    Json.parse?_pretty_append_eq hregular.wellFormed (hregular.leaves.imp fun _ hs => hs.readable)
      (Json.ends_cons rfl []) rfl
  unfold Disk.writeTree at h
  split at h
  · cases h
  · rename_i written hfile
    cases h
    simp only [file, Disk.readTree, Disk.fileText_writeFile hfile, hparse]
    by_cases hdepth : tree.depth ≤ depthLimit
    · simp only [if_pos hdepth]
    · simp only [if_neg hdepth]

theorem regular_of_readTree (h : d.readTree path = .ok tree) :
    tree.Regular ∧ (Tables.ofTree tree).toTree.depth ≤ depthLimit := by
  unfold Disk.readTree at h
  split at h
  · cases h
  · split at h
    · rename_i hparse
      cases h
      refine ⟨Json.regular_of_parse? hparse, ?_⟩
      have hdepth := Json.depth_le_of_parse? hparse
      cases tree with
      | object ms => exact hdepth
      | scalar s => exact Nat.one_le_ofNat
      | array xs => exact Nat.one_le_ofNat
    · cases h

/-- The inversion of a write: the file is read and written anew, or it stays as it is. -/
theorem write_cases (path : String) (w : Write) (d : Disk) :
    (∃ tree d', d.readTree path = .ok tree ∧ d.writeTree path (w.run (.ofTree tree)).toTree = .ok d' ∧
      (file path).write w d = (.ok (), d')) ∨ ∃ e, (file path).write w d = (.error e, d) := by
  simp only [file]
  split
  · exact .inr ⟨_, rfl⟩
  · rename_i tree hread
    split
    · exact .inr ⟨_, rfl⟩
    · rename_i d' hwrite
      exact .inl ⟨tree, d', hread, hwrite, rfl⟩

/-- After a write that succeeds the file is read as the tables after the write, with every number as it is read
from its text, if what is written does not nest too deep. Otherwise it cannot be read. -/
theorem config_write (hw : w.Regular) (h : (file path).write w d = (.ok (), d')) : ∃ tree,
    (file path).config d = .ok tree ∧
      (file path).config d' =
        if w.depth ≤ depthLimit then .ok ((w.run (.ofTree tree)).toTree.mapLeaves Scalar.reread)
        else .error (.unreadable path) := by
  obtain ⟨tree, written, hread, hwrite, heq⟩ | ⟨e, heq⟩ := write_cases path w d
  · cases heq.symm.trans h
    obtain ⟨hregular, hdepth⟩ := regular_of_readTree hread
    have hconfig := config_writeTree (Write.regular_run hw hregular.ofTree) hwrite
    simp only [Write.depth_run_le_iff hdepth] at hconfig
    exact ⟨tree, hread, hconfig⟩
  · cases heq.symm.trans h

/-! ## Runs of writes -/

/-- As long as no write nests too deep, the file stays readable, whatever the outcome of the writes. -/
theorem readable_writeAll (hread : ∃ tree, (file path).config d = .ok tree)
    (hws : ∀ w ∈ ws, w.Regular ∧ w.depth ≤ depthLimit) :
    ∃ tree, (file path).config ((file path).writeAll ws d).2 = .ok tree := by
  induction ws generalizing d with
  | nil => exact hread
  | cons w ws ih =>
    obtain ⟨⟨hregular, hdepth⟩, hws⟩ := List.forall_mem_cons.1 hws
    obtain ⟨tree, d', -, -, hwrite⟩ | ⟨e, hwrite⟩ := write_cases path w d
    · obtain ⟨tree', -, hconfig⟩ := config_write hregular hwrite
      rw [if_pos hdepth] at hconfig
      simp only [writeAll, hwrite]
      exact ih ⟨_, hconfig⟩ hws
    · simp only [writeAll, hwrite]
      exact hread

/-- No writes make a file readable that is not. -/
theorem config_writeAll_of_error {e : StoreError} (h : (file path).config d = .error e) (ws : List Write) :
    (file path).config ((file path).writeAll ws d).2 = .error e := by
  cases ws with
  | nil => exact h
  | cons w ws =>
    obtain ⟨tree, d', hread, -, -⟩ | ⟨e', hwrite⟩ := write_cases path w d
    · cases hread.symm.trans h
    · simp only [writeAll, hwrite]
      exact h

/-- A write that succeeds leaves a file that can be read exactly if what is written does not nest too deep. If it
does, the file cannot be read again whatever is written into it. -/
theorem readable_write_iff (hw : w.Regular) (h : (file path).write w d = (.ok (), d')) :
    ((∃ tree, (file path).config d' = .ok tree) ↔ w.depth ≤ depthLimit) ∧
      (depthLimit < w.depth →
        ∀ ws, (file path).config ((file path).writeAll ws d').2 = .error (.unreadable path)) := by
  obtain ⟨tree, -, hconfig⟩ := config_write hw h
  by_cases hdepth : w.depth ≤ depthLimit
  · rw [if_pos hdepth] at hconfig
    exact ⟨iff_of_true ⟨_, hconfig⟩ hdepth, fun hdeep => absurd hdepth (Nat.not_le.2 hdeep)⟩
  · rw [if_neg hdepth] at hconfig
    refine ⟨iff_of_false ?_ hdepth, fun _ ws => config_writeAll_of_error hconfig ws⟩
    rintro ⟨tree', hread⟩
    cases hread.symm.trans hconfig

/-- An entry with a number that is no integer. -/
def halfEntry : Write :=
  .setEntry "PORT" "Ethernet0" (.object [("load", .scalar (.number (.double ⟨false, 2 ^ 52, -53⟩)))])

/-- The directory with the entry in the file. -/
def homeOfHalf : Disk :=
  emptyHome.put ["etc", "config_db.json"] (.file (Json.pretty (halfEntry.run onePort).toTree ++ "\n"))

theorem fileHolds_homeOfPort : FileHolds "config_db.json" homeOfPort onePort :=
  fileHolds_of_writeTree writeTree_onePort (storable_otherPort [] List.nil_prefix)

theorem regular_halfEntry : halfEntry.Regular :=
  ⟨by decide, ⟨by decide, by decide, by decide⟩, trivial⟩

theorem write_halfEntry : (file "config_db.json").write halfEntry homeOfPort = (.ok (), homeOfHalf) := by
  simp only [file, fileHolds_homeOfPort.readTree]
  rfl

theorem readable_write_halfEntry : halfEntry.Regular ∧
    (file "config_db.json").write halfEntry homeOfPort = (.ok (), homeOfHalf) ∧
    ((∃ tree, (file "config_db.json").config homeOfHalf = .ok tree) ↔ halfEntry.depth ≤ depthLimit) ∧
    (depthLimit < halfEntry.depth → ∀ ws, (file "config_db.json").config
      ((file "config_db.json").writeAll ws homeOfHalf).2 = .error (.unreadable "config_db.json")) :=
  ⟨regular_halfEntry, write_halfEntry, readable_write_iff regular_halfEntry write_halfEntry⟩

/-! ## A file that is lost -/

/-- Arrays inside one another. -/
def nested : Nat → Value
  | 0 => .array []
  | n + 1 => .array [nested n]

theorem depth_nested (n : Nat) : (nested n).depth = n + 1 := by
  induction n with
  | zero => rfl
  | succ n ih =>
    show max (nested n).depth 0 + 1 = n + 2
    omega

theorem regular_nested (n : Nat) : (nested n).Regular := by
  induction n with
  | zero => exact ⟨trivial, trivial⟩
  | succ n ih => exact ⟨⟨ih.wellFormed, trivial⟩, ⟨ih.leaves, trivial⟩⟩

/-- An entry that alone is no document that nests too deep, but does in its table. -/
def deepEntry : Write :=
  .setEntry "PORT" "Ethernet4" (nested 125)

/-- The disk takes the entry, and the file is lost. -/
theorem exists_file_lost :
    ¬ ∀ (path : String) (w : Write) (d d' : Disk), w.Regular → (∃ tree, (file path).config d = .ok tree) →
      (file path).write w d = (.ok (), d') → ∃ tree, (file path).config d' = .ok tree := by
  intro hall
  have hread : (file "config_db.json").config homeOfPort = .ok onePort.toTree := fileHolds_homeOfPort.readTree
  have hregular : deepEntry.Regular := regular_nested 125
  obtain ⟨d', hwrite⟩ := fileHolds_homeOfPort.exists_writeTree (deepEntry.run onePort).toTree
  have hmade : (file "config_db.json").write deepEntry homeOfPort = (.ok (), d') := by
    have htables : Tables.ofTree onePort.toTree = onePort := rfl
    simp only [file, fileHolds_homeOfPort.readTree, htables, hwrite]
  have hdeep : ¬ deepEntry.depth ≤ depthLimit := by
    show ¬ (nested 125).depth + 2 ≤ 127
    rw [depth_nested]
    omega
  obtain ⟨tree, -, hconfig⟩ := config_write hregular hmade
  obtain ⟨tree', hread'⟩ := hall "config_db.json" deepEntry homeOfPort d' hregular ⟨_, hread⟩ hmade
  rw [if_neg hdeep] at hconfig
  cases hread'.symm.trans hconfig

end Store

end ConfigUpdate
