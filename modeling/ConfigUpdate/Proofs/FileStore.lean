import ConfigUpdate.Store.File
import ConfigUpdate.Proofs.DiskFiles
import ConfigUpdate.Proofs.JsonReadBack

/-!
# Stores in files and stores in memory

A store in a file answers every sequence of calls as a store in memory does, and its file holds the tables of
that store at every moment, as long as these can be written: `Store.file_answers`. The two contents are related
by `Store.FileHolds`, which every call preserves.
-/

namespace ConfigUpdate

namespace Store

variable {σ : Type}

/-- A call of a store. -/
inductive Call where
  | config
  | table (table : String)
  | entry (table key : String)
  | write (w : Write)

/-- What a call returns, and the content after it. A write that succeeds returns nothing. -/
def answer (store : Store σ) : Call → σ → Except StoreError (Option Value) × σ
  | .config, s => ((store.config s).map some, s)
  | .table table, s => (store.table? s table, s)
  | .entry table key, s => (store.entryAt? s table key, s)
  | .write w, s => ((store.write w s).1.map fun _ => none, (store.write w s).2)

/-- What the calls of a sequence return, and the content after them. -/
def answers (store : Store σ) : List Call → σ → List (Except StoreError (Option Value)) × σ
  | [], s => ([], s)
  | call :: calls, s =>
    let (result, s) := store.answer call s
    let (results, s) := store.answers calls s
    (result :: results, s)

/-- The file holds the tables, and it can be written. -/
structure FileHolds (path : String) (d : Disk) (ts : Tables) : Prop where
  readTree : d.readTree path = .ok ts.toTree
  writable : ∀ text, ∃ d', d.writeFile path text = .ok d'

section

variable {path : String} {d d₀ d' : Disk} {ts : Tables}

/-- A tree that is written is the tree that is read. -/
theorem fileHolds_of_writeTree (hwrite : d.writeTree path ts.toTree = .ok d')
    (hstorable : Json.Storable ts.toTree) : FileHolds path d' ts := by
  unfold Disk.writeTree at hwrite
  split at hwrite
  · cases hwrite
  · rename_i written hfile
    cases hwrite
    refine ⟨?_, Disk.exists_writeFile_again hfile⟩
    simp only [Disk.readTree, Disk.fileText_writeFile hfile, Json.parse?_prettyLine hstorable]

theorem FileHolds.exists_writeTree (h : FileHolds path d ts) (tree : Value) :
    ∃ d', d.writeTree path tree = .ok d' := by
  obtain ⟨d', hfile⟩ := h.writable (Json.pretty tree ++ "\n")
  exact ⟨d', by simp only [Disk.writeTree, hfile]⟩

/-- The step: a call returns the same for both stores, and the file holds the tables after it. -/
theorem FileHolds.answer (h : FileHolds path d ts) (call : Call)
    (hstorable : Json.Storable (memory.answer call ts).2.toTree) :
    ((file path).answer call d).1 = (memory.answer call ts).1 ∧
      FileHolds path ((file path).answer call d).2 (memory.answer call ts).2 := by
  have hconfig : (file path).config d = memory.config ts := h.readTree
  cases call with
  | config => exact ⟨by simp only [Store.answer, hconfig], h⟩
  | table table => exact ⟨by simp only [Store.answer, table?, tables, hconfig], h⟩
  | entry table key => exact ⟨by simp only [Store.answer, entryAt?, tables, hconfig], h⟩
  | write w =>
    obtain ⟨d', hwrite⟩ := h.exists_writeTree (w.run ts).toTree
    have hrun : (file path).write w d = (.ok (), d') := by
      have hread : Tables.ofTree ts.toTree = ts := rfl
      simp only [file, h.readTree, hread, hwrite]
    simp only [Store.answer, hrun]
    exact ⟨rfl, fileHolds_of_writeTree hwrite hstorable⟩

/-- The run: the step along a sequence of calls. -/
theorem FileHolds.answers {calls : List Call} (h : FileHolds path d ts)
    (hstorable : ∀ earlier, earlier <+: calls → Json.Storable (memory.answers earlier ts).2.toTree) :
    ((file path).answers calls d).1 = (memory.answers calls ts).1 ∧
      FileHolds path ((file path).answers calls d).2 (memory.answers calls ts).2 := by
  induction calls generalizing d ts with
  | nil => exact ⟨rfl, h⟩
  | cons call calls ih =>
    have hfirst : Json.Storable (memory.answer call ts).2.toTree :=
      hstorable [call] (List.prefix_append [call] calls)
    obtain ⟨hresult, hholds⟩ := h.answer call hfirst
    obtain ⟨hresults, hafter⟩ := ih hholds fun earlier hearlier =>
      hstorable (call :: earlier) (List.prefix_cons_inj call |>.2 hearlier)
    exact ⟨by simp only [Store.answers, hresult, hresults], hafter⟩

/-- A write into a file that is missing or holds no tree fails, and the disk stays as it is. -/
theorem write_unreadable (w : Write) (h : ∀ text, d.fileText path = .ok text → Json.parse? text = none) :
    ∃ e, (file path).write w d = (.error e, d) := by
  cases htext : d.fileText path with
  | error fault => exact ⟨.disk path fault, by simp only [file, Disk.readTree, htext]⟩
  | ok text => exact ⟨.unreadable path, by simp only [file, Disk.readTree, htext, h text htext]⟩

/-- A store in a file that was created with tables answers as the store in memory that holds them, and its file
reads back as the content of that store after every part of the calls, as long as that content can be written.
A write that finds the file missing or unreadable fails and changes nothing. -/
theorem file_answers {calls : List Call} (hcreate : d₀.writeTree path ts.toTree = .ok d)
    (hstorable : ∀ earlier, earlier <+: calls → Json.Storable (memory.answers earlier ts).2.toTree) :
    ((file path).answers calls d).1 = (memory.answers calls ts).1 ∧
      (∀ earlier, earlier <+: calls →
        ((file path).answers earlier d).2.readTree path = .ok (memory.answers earlier ts).2.toTree) ∧
      ∀ (broken : Disk) (w : Write),
        (∀ text, broken.fileText path = .ok text → Json.parse? text = none) →
          ∃ e, (file path).write w broken = (.error e, broken) := by
  have hholds : FileHolds path d ts := fileHolds_of_writeTree hcreate (hstorable [] (List.nil_prefix))
  refine ⟨(hholds.answers hstorable).1, fun earlier hearlier => ?_, fun broken w => write_unreadable w⟩
  exact (hholds.answers fun first hfirst => hstorable first (hfirst.trans hearlier)).2.readTree

end

/-- The tables with a port. -/
def onePort : Tables :=
  [("PORT", .object [("Ethernet0", .object [("alias", .ofString "etp\n1")])])]

/-- Calls that put another port in its place. -/
def otherPort : List Call :=
  [.write (.setEntry "PORT" "Ethernet4" (.object [("mtu", .ofString "9100")])), .entry "PORT" "Ethernet4",
    .write (.deleteEntry "PORT" "Ethernet0"), .config]

/-- A directory. -/
def emptyHome : Disk :=
  .blank ["etc"]

/-- The directory with the port in a file. -/
def homeOfPort : Disk :=
  emptyHome.put ["etc", "config_db.json"] (.file (Json.pretty onePort.toTree ++ "\n"))

theorem writeTree_onePort : emptyHome.writeTree "config_db.json" onePort.toTree = .ok homeOfPort :=
  rfl

theorem storable_otherPort (earlier : List Call) (h : earlier <+: otherPort) :
    Json.Storable (memory.answers earlier onePort).2.toTree := by
  simp only [otherPort, List.prefix_cons_iff, List.prefix_nil] at h
  obtain rfl | ⟨_, rfl, rfl | ⟨_, rfl, rfl | ⟨_, rfl, rfl | ⟨_, rfl, rfl⟩⟩⟩⟩ := h <;>
    exact ⟨by decide, by decide, by decide⟩

theorem fileText_emptyHome : emptyHome.fileText "config_db.json" = .error .notFound :=
  rfl

theorem file_answers_otherPort :
    ((file "config_db.json").answers otherPort homeOfPort).1 =
        [.ok none, .ok (some (.object [("mtu", .ofString "9100")])), .ok none,
          .ok (some (.object [("PORT", .object [("Ethernet4", .object [("mtu", .ofString "9100")])])]))] ∧
      ∃ e, (file "config_db.json").write (.deleteTable "PORT") emptyHome = (.error e, emptyHome) := by
  obtain ⟨hanswers, -, hbroken⟩ := file_answers writeTree_onePort storable_otherPort
  refine ⟨hanswers.trans rfl, hbroken emptyHome (.deleteTable "PORT") fun text htext => ?_⟩
  rw [fileText_emptyHome] at htext
  cases htext

end Store

end ConfigUpdate
