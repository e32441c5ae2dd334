import ConfigUpdate.Proofs.DiskFiles
import ConfigUpdate.Proofs.Execution
import ConfigUpdate.Store.File

/-!
# Updates of one file

The store in a file changes that file and nothing else on the disk (`Disk.OnlyFile`), and so do the moves that
are made in it. Plans for one scope, whose database is in a file, change only this file: `Updater.onlyFile_run`.
-/

namespace ConfigUpdate

/-! ## One file of a disk -/

namespace Disk

variable {path other : String} {d d' d'' : Disk} {place : Place}

/-- The later disk differs from the earlier one at most in the file of a path, and in no directory. -/
structure OnlyFile (path : String) (d d' : Disk) : Prop where
  workingPlace : d'.workingPlace = d.workingPlace
  directory : ∀ p, d'.node? p = some .directory ↔ d.node? p = some .directory
  others : ∀ p, ¬ d.Leads path p → d'.node? p = d.node? p

namespace OnlyFile

theorem refl (path : String) (d : Disk) : OnlyFile path d d :=
  ⟨rfl, fun _ => Iff.rfl, fun _ _ => rfl⟩

theorem leads_iff (h : OnlyFile path d d') : d'.Leads other place ↔ d.Leads other place :=
  ⟨fun hleads => hleads.keep ⟨h.workingPlace.symm, fun p => (h.directory p).1⟩,
    fun hleads => hleads.keep ⟨h.workingPlace, fun p => (h.directory p).2⟩⟩

theorem trans (h : OnlyFile path d d') (h' : OnlyFile path d' d'') : OnlyFile path d d'' := by
  refine ⟨h'.workingPlace.trans h.workingPlace, fun p => (h'.directory p).trans (h.directory p), fun p hp => ?_⟩
  rw [h'.others p (mt h.leads_iff.1 hp), h.others p hp]

/-- A file under another path stays as it is. -/
theorem toOption_fileText (h : OnlyFile path d d') (hapart : ∀ p, d.Leads path p → ¬ d.Leads other p) :
    (d'.fileText other).toOption = (d.fileText other).toOption := by
  ext text
  rw [toOption_eq_some_iff, toOption_eq_some_iff, fileText_eq_ok_iff, fileText_eq_ok_iff]
  refine exists_congr fun p => ?_
  rw [h.leads_iff]
  refine and_congr_right fun hother => ?_
  rw [h.others p fun hpath => hapart p hpath hother]

end OnlyFile

theorem FileChange.onlyFile (h : FileChange d d' place) (hleads : d.Leads path place) : OnlyFile path d d' := by
  refine ⟨h.workingPlace, fun p => ?_, fun p hp => h.others p fun heq => hp (heq ▸ hleads)⟩
  by_cases hp : p = place
  · rw [hp]
    exact iff_of_false h.after h.before
  · rw [h.others p hp]

theorem onlyFile_writeFile {text : String} (h : d.writeFile path text = .ok d') : OnlyFile path d d' := by
  obtain ⟨place, hleads, -, hfree, rfl⟩ := writeFile_eq_ok_iff.1 h
  exact (fileChange_put hfree text).onlyFile hleads

theorem onlyFile_removeFile (h : d.removeFile path = .ok d') : OnlyFile path d d' := by
  obtain ⟨place, text, hleads, -, hnode, rfl⟩ := removeFile_eq_ok_iff.1 h
  exact (fileChange_drop (by simp [hnode])).onlyFile hleads

end Disk

/-! ## What every write keeps -/

namespace Store

section

variable {σ : Type} {store : Store σ} {R : σ → σ → Prop} (hrefl : ∀ s, R s s)
  (htrans : ∀ {s s' s''}, R s s' → R s' s'' → R s s'') (hwrite : ∀ w s, R s (store.write w s).2)

include hrefl htrans hwrite

theorem related_writeAll (ws : List Write) (s : σ) : R s (store.writeAll ws s).2 := by
  induction ws generalizing s with
  | nil => exact hrefl s
  | cons w ws ih =>
    have hfirst := hwrite w s
    unfold writeAll
    split
    · rename_i s' hok
      rw [hok] at hfirst
      exact htrans hfirst (ih s')
    · rename_i e s' hfails
      rw [hfails] at hfirst
      exact hfirst

theorem related_makeMove (m : Move) (s : σ) : R s (store.makeMove m s).2 := by
  unfold makeMove
  split
  · exact hrefl s
  · rename_i config _
    dsimp only
    split
    · exact hrefl s
    · rename_i after _
      have hall := related_writeAll hrefl htrans hwrite
        ((Slice.ofPath m.path).writes ((Slice.ofPath m.path).view config) after) s
      split
      · rename_i hok
        rw [hok] at hall
        exact hall
      · rename_i hfails
        rw [hfails] at hall
        exact hall

theorem related_makeMoves (index : Nat) (moves : List Move) (s : σ) :
    R s (store.makeMoves index moves s).2 := by
  induction moves generalizing index s with
  | nil => exact hrefl s
  | cons m ms ih =>
    have hfirst := related_makeMove hrefl htrans hwrite m s
    unfold makeMoves
    split
    · rename_i s' hok
      rw [hok] at hfirst
      exact htrans hfirst (ih _ s')
    · rename_i fault s' hfails
      rw [hfails] at hfirst
      exact hfirst

/-- A relation between contents that every write keeps holds between the contents before and after a plan. -/
theorem related_apply (moves : List Move) (s : σ) : R s (store.apply moves s).2 := by
  have hall := related_makeMoves hrefl htrans hwrite 0 moves s
  unfold apply
  split
  · rename_i hok
    rw [hok] at hall
    exact hall
  · rename_i hfails
    rw [hfails] at hall
    exact hall

end

variable {path : String} {d : Disk}

theorem onlyFile_write (path : String) (w : Write) (d : Disk) : d.OnlyFile path ((file path).write w d).2 := by
  simp only [file]
  split
  · exact .refl path d
  · split
    · exact .refl path d
    · rename_i written hwrite
      unfold Disk.writeTree at hwrite
      split at hwrite
      · cases hwrite
      · rename_i hfile
        cases hwrite
        exact Disk.onlyFile_writeFile hfile

theorem onlyFile_apply (path : String) (moves : List Move) (d : Disk) :
    d.OnlyFile path ((file path).apply moves d).2 :=
  related_apply (.refl path) .trans (onlyFile_write path) moves d

end Store

/-! ## Plans for one scope -/

theorem Database.within_file (path : String) :
    Store.Within Database.store (Store.file path) fun disk => (.file path, disk) :=
  ⟨fun _ => rfl, fun _ _ => rfl⟩

namespace Switch

variable {s : Switch} {scope : Scope} {path : String}

/-- The database of a scope, if it has one, is in a file. -/
def InFile (s : Switch) (scope : Scope) (path : String) : Prop :=
  ∀ db, Dictionary.get? s.databases scope = some db → db = .file path

theorem InFile.apply (h : s.InFile scope path) (moves : List Move) :
    s.disk.OnlyFile path (s.apply scope moves).2.disk ∧ (s.apply scope moves).2.InFile scope path := by
  cases hdb : Dictionary.get? s.databases scope with
  | none =>
    simp only [Switch.apply, hdb]
    exact ⟨.refl path s.disk, h⟩
  | some db =>
    obtain rfl := h db hdb
    simp only [Switch.apply, hdb]
    rw [(Database.within_file path).apply_eq]
    refine ⟨Store.onlyFile_apply path moves s.disk, fun db' hdb' => ?_⟩
    rw [Dictionary.get?_insert, if_pos rfl] at hdb'
    exact (Option.some.inj hdb').symm

end Switch

namespace Updater

variable {u : Updater} {s : Switch} {scope : Scope} {path : String}

/-- Plans for a scope change only the file of its database, whether they succeed or fail. -/
theorem onlyFile_execute {plans : List ScopePlan} (hplans : ∀ plan ∈ plans, plan.scope = scope)
    (h : s.InFile scope path) : s.disk.OnlyFile path (u.execute plans s).2.disk := by
  induction plans generalizing s with
  | nil => exact .refl path s.disk
  | cons plan plans ih =>
    obtain ⟨rfl, hplans⟩ := List.forall_mem_cons.1 hplans
    by_cases hskip : (u.dryRun || plan.moves.isEmpty) = true
    · simp only [execute, hskip, if_true]
      exact ih hplans h
    · obtain ⟨honly, hfile⟩ := h.apply plan.moves
      simp only [execute, hskip, Bool.false_eq_true, if_false]
      rcases happly : s.apply plan.scope plan.moves with ⟨e | report, s'⟩
      · rw [happly] at honly
        exact honly
      · rw [happly] at honly hfile
        exact honly.trans (ih hplans hfile)

theorem onlyFile_run {planned : Except UpdateError (List ScopePlan)}
    (hplans : ∀ plans, planned = .ok plans → ∀ plan ∈ plans, plan.scope = scope) (h : s.InFile scope path) :
    s.disk.OnlyFile path (u.run planned s).2.disk := by
  cases planned with
  | error e => exact .refl path s.disk
  | ok plans => exact onlyFile_execute (hplans plans rfl) h

end Updater

end ConfigUpdate
