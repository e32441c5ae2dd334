import ConfigUpdate.Change.Basic
import ConfigUpdate.Proofs.Assignments
import ConfigUpdate.Proofs.PatchReadBack

/-!
# Changes and their patches

Changes that find their tables, and the entries that they delete, make of a tree what their patch makes of it when
it is read back from its text, whatever characters are in their names and fields: `Change.runAll_patchOf`. A single
change agrees with its operation in no other case: `Change.run_toOperation_iff`.
-/

namespace ConfigUpdate

namespace Value

variable {xs : List Value}

/-- An item that is put in makes the array longer. -/
theorem insertChild_array_ne (s : Step) (new : Value) (location : String) :
    insertChild s new location (array xs) ≠ .ok (array xs, ()) := by
  intro h
  obtain ⟨i, hi, h⟩ := exists_of_bind_eq_ok h
  have hitems : xs.insertIdx i new = xs := array.inj (Prod.mk.inj (Except.ok.inj h)).1
  have hlength := List.length_insertIdx_of_le_length (Step.position_atEnd_le hi) new
  rw [hitems] at hlength
  omega

/-- An item that is taken away makes the array shorter. -/
theorem removeChild_array_ne (s : Step) (location : String) (c : Value) :
    removeChild s location (array xs) ≠ .ok (array xs, c) := by
  intro h
  obtain ⟨i, hi, h⟩ := exists_of_bind_eq_ok h
  have hlt := (Step.position_inside hi).2
  simp only [List.getElem?_eq_getElem hlt] at h
  have hitems : xs.eraseIdx i = xs := array.inj (Prod.mk.inj (Except.ok.inj h)).1
  have hlength := List.length_eraseIdx_of_lt hlt
  rw [hitems] at hlength
  omega

end Value

namespace Change

variable {tree : Value} {c : Change} {changes : List Change} {table key : String}

/-- The table of the change is an object in the tree and, for a deletion, has the entry. -/
def Fits (tree : Value) : Change → Prop
  | set table _ _ => ∃ es, tree.get? table = some (.object es)
  | delete table key => ∃ es entry, tree.get? table = some (.object es) ∧ Dictionary.get? es key = some entry

/-- Every change fits the tree that the changes before it leave. -/
def AllFit (tree : Value) : List Change → Prop
  | [] => True
  | c :: cs => c.Fits tree ∧ AllFit (c.applyTo tree) cs

/-- The fields of the change, if it has some, are in order. -/
def Ordered : Change → Prop
  | set _ _ fields => fields.Sorted
  | delete _ _ => True

/-! ## One change -/

theorem alterFrom_table_eq_ok_iff {α : Type} {f : String → Value → Except ResolveError (Value × α)}
    {ns : List (String × Value)} {a : α} :
    Value.alterFrom "" f tree [.key table] = .ok (.object ns, a) ↔
      ∃ ms t t', tree = .object ms ∧ Dictionary.get? ms table = some t ∧
        f (Pointer.textBelow "" [.key table]) t = .ok (t', a) ∧ ns = Dictionary.insert ms table t' := by
  rw [Value.alterFrom_eq_ok_iff]
  simp only [Value.resolveFrom_cons_eq_ok_iff, Value.assign_singleton]
  constructor
  · rintro ⟨t, t', ⟨t, hslot, ⟨⟩⟩, hf, hassign⟩
    cases tree with
    | object ms =>
      rw [Value.slot_object] at hslot
      rw [Value.setSlot_object] at hassign
      cases hassign
      exact ⟨ms, t, t', rfl, hslot, hf, rfl⟩
    | array xs =>
      obtain ⟨ys, hys, -⟩ := Value.exists_setSlot_array xs (.key table) (some t')
      cases hassign.trans hys
    | scalar x => cases hslot
  · rintro ⟨ms, t, t', rfl, hget, hf, rfl⟩
    refine ⟨t, t', ⟨t, ?_, rfl⟩, hf, ?_⟩
    · rw [Value.slot_object]
      exact hget
    · rw [Value.setSlot_object]
      rfl

theorem run_set_eq_ok_iff {fields : Dictionary String String} {w : Value} :
    (set table key fields).toOperation.run tree = .ok w ↔
      Value.alterFrom "" (Value.insertChild (.key key) (entryOf fields)) tree [.key table] = .ok (w, ()) := by
  have hrun : (set table key fields).toOperation.run tree
      = Operation.edited (tree.insertAt ([.key table] ++ [.key key]) (entryOf fields)) := rfl
  rw [hrun, ← Value.insertAt_concat_eq_ok_iff]
  exact ⟨Operation.edited_eq_ok, fun h => by rw [h]; rfl⟩

theorem run_delete_eq_ok_iff {w : Value} :
    (delete table key).toOperation.run tree = .ok w ↔
      ∃ entry, Value.alterFrom "" (Value.removeChild (.key key)) tree [.key table] = .ok (w, entry) := by
  have hrun : (delete table key).toOperation.run tree
      = (Operation.edited (tree.removeAt ([.key table] ++ [.key key]))).bind fun r => .ok r.1 := rfl
  rw [hrun, Value.removeAt_concat]
  cases Value.alterFrom "" (Value.removeChild (.key key)) tree [.key table] with
  | error e => exact ⟨nofun, nofun⟩
  | ok r => exact ⟨fun h => ⟨r.2, by cases h; rfl⟩, fun ⟨entry, h⟩ => by cases h; rfl⟩

theorem exists_members {t : Value} (h : tree.get? table = some t) :
    ∃ ms, tree = .object ms ∧ Dictionary.get? ms table = some t := by
  cases tree with
  | object ms => exact ⟨ms, rfl, h⟩
  | array xs => cases h
  | scalar x => cases h

theorem eq_of_insert_eq {ms : List (String × Value)} {t t' : Value} (hget : Dictionary.get? ms table = some t)
    (h : ms = Dictionary.insert ms table t') : t' = t := by
  rw [h, Dictionary.get?_insert, if_pos rfl] at hget
  exact Option.some.inj hget

/-- An entry is set just if its table is an object: any other table is left as it is by the change, and altered or
refused by its operation. -/
theorem run_set_iff (table key : String) (fields : Dictionary String String) (tree : Value) :
    (set table key fields).toOperation.run tree = .ok ((set table key fields).applyTo tree) ↔
      (set table key fields).Fits tree := by
  rw [run_set_eq_ok_iff]
  refine alterFrom_table_eq_ok_iff.trans ⟨?_, ?_⟩
  · rintro ⟨ms, t, t', rfl, hget, hinsert, hms⟩
    cases t with
    | object es => exact ⟨es, hget⟩
    | scalar x => cases hinsert
    | array xs =>
      have hkept : run (.set table key fields) ms = ms := by simp only [run, hget, Option.getD_some]
      obtain rfl := eq_of_insert_eq hget (hkept.symm.trans hms)
      exact absurd hinsert (Value.insertChild_array_ne _ _ _)
  · rintro ⟨es, htable⟩
    obtain ⟨ms, rfl, hget⟩ := exists_members htable
    refine ⟨ms, .object es, _, rfl, hget, rfl, ?_⟩
    show run (.set table key fields) ms = _
    simp only [run, hget, Option.getD_some]
    rfl

/-- An entry is deleted just if it is there. -/
theorem run_delete_iff (table key : String) (tree : Value) :
    (delete table key).toOperation.run tree = .ok ((delete table key).applyTo tree) ↔
      (delete table key).Fits tree := by
  rw [run_delete_eq_ok_iff]
  refine (exists_congr fun entry => alterFrom_table_eq_ok_iff).trans ⟨?_, ?_⟩
  · rintro ⟨entry, ms, t, t', rfl, hget, hremove, hms⟩
    cases t with
    | object es =>
      refine ⟨es, entry, hget, ?_⟩
      simp only [Value.removeChild] at hremove
      split at hremove
      · rename_i c hc
        cases hremove
        exact hc
      · cases hremove
    | scalar x => cases hremove
    | array xs =>
      have hkept : run (.delete table key) ms = ms := by simp only [run, hget]
      obtain rfl := eq_of_insert_eq hget (hkept.symm.trans hms)
      exact absurd hremove (Value.removeChild_array_ne _ _ _)
  · rintro ⟨es, entry, htable, hentry⟩
    obtain ⟨ms, rfl, hget⟩ := exists_members htable
    have hname : (Step.key key).name = key := rfl
    refine ⟨entry, ms, .object es, .object (Dictionary.erase es key), rfl, hget, ?_, ?_⟩
    · simp only [Value.removeChild, hname, hentry]
    · show run (.delete table key) ms = _
      simp only [run, hget]

/-- A change does what its operation does just if it fits. -/
theorem run_toOperation_iff (c : Change) (tree : Value) :
    c.toOperation.run tree = .ok (c.applyTo tree) ↔ c.Fits tree := by
  cases c with
  | set table key fields => exact run_set_iff table key fields tree
  | delete table key => exact run_delete_iff table key tree

/-! ## Lists of changes -/

theorem runFrom_toOperation (h : AllFit tree changes) (index : Nat) :
    Operation.runFrom index tree (changes.map toOperation) = .ok (applyAll changes tree) := by
  induction changes generalizing tree index with
  | nil => rfl
  | cons c cs ih =>
    have hrun := (run_toOperation_iff c tree).2 h.1
    simp only [List.map_cons, Operation.runFrom, hrun]
    exact ih h.2 (index + 1)

/-! ## Texts -/

theorem exists_text_of_mem {fields : Dictionary String String} {m : String × Value}
    (h : m ∈ fields.mapValues Value.ofString) : ∃ text, m.2 = .ofString text := by
  obtain ⟨e, -, rfl⟩ := List.mem_map.1 h
  exact ⟨e.2, rfl⟩

theorem printable_toOperation (h : c.Ordered) : c.toOperation.Printable := by
  cases c with
  | set table key fields =>
    refine .of_value (Pointer.named_ofNames _) ⟨?_, ?_⟩ ?_ ?_
    · exact List.pairwise_map.2 h
    · refine Value.wellFormedMembers_iff.2 fun m hm => ?_
      obtain ⟨text, hm⟩ := exists_text_of_mem hm
      rw [hm]
      exact trivial
    · refine Value.integralMembers_iff.2 fun m hm => ?_
      obtain ⟨text, hm⟩ := exists_text_of_mem hm
      rw [hm]
      exact trivial
    · have hdepth : Value.depthMembers (fields.mapValues Value.ofString) ≤ 0 :=
        Value.depthMembers_le_iff.2 fun m hm => by
          obtain ⟨text, hm⟩ := exists_text_of_mem hm
          rw [hm]
          exact Nat.le_refl 0
      exact Nat.le_trans (Nat.succ_le_succ hdepth) (by decide)
  | delete table key => exact ⟨Pointer.named_ofNames _, nofun, nofun, nofun, nofun⟩

/-- The patch of some changes is read back as their operations. -/
theorem parse_patchOf (h : ∀ c ∈ changes, c.Ordered) :
    Patch.parse (patchOf changes) = .ok (changes.map toOperation) := by
  have hprintable : ∀ op ∈ changes.map toOperation, op.Printable := by
    intro op hop
    obtain ⟨c, hc, rfl⟩ := List.mem_map.1 hop
    exact printable_toOperation (h c hc)
  have hwithout : Operation.withoutNull ∘ toOperation = toOperation := by
    funext c
    cases c <;> rfl
  rw [patchOf, Patch.parse_of_writtenAs hprintable .line, List.map_map, hwithout]

/-- The patch of changes of which each one fits, read back from its text, makes of a tree what the changes make
of it. -/
theorem runAll_patchOf (tree : Value) (changes : List Change) (hordered : ∀ c ∈ changes, c.Ordered)
    (hfit : AllFit tree changes) :
    (Patch.parse (patchOf changes)).bind (Operation.runAll tree) = .ok (applyAll changes tree) := by
  rw [parse_patchOf hordered]
  exact runFrom_toOperation hfit 0

/-- Changes of entries with marks, quotes and nothing in their names. -/
def oddChanges : List Change :=
  [.delete "~/" "old/key", .set "~/" "~1" [("", "\"up\""), ("a/b", "")], .set "" "" []]

/-- A tree with their tables. -/
def oddTree : Value :=
  .object [("", .empty), ("~/", .object [("old/key", .empty)])]

theorem runAll_patchOf_oddChanges :
    (∀ c ∈ oddChanges, c.Ordered) ∧ AllFit oddTree oddChanges ∧
      (Patch.parse (patchOf oddChanges)).bind (Operation.runAll oddTree) = .ok (.object
        [("", .object [("", .empty)]),
          ("~/", .object [("~1", .object [("", .ofString "\"up\""), ("a/b", .ofString "")])])]) := by
  have hordered : ∀ c ∈ oddChanges, c.Ordered := by
    refine List.forall_mem_cons.2 ⟨trivial, List.forall_mem_cons.2 ⟨?_, List.forall_mem_singleton.2 .nil⟩⟩
    show Dictionary.Sorted _
    unfold Dictionary.Sorted
    decide
  have hfit : AllFit oddTree oddChanges := ⟨⟨_, _, rfl, rfl⟩, ⟨_, rfl⟩, ⟨_, rfl⟩, trivial⟩
  exact ⟨hordered, hfit, runAll_patchOf oddTree oddChanges hordered hfit⟩

end Change

end ConfigUpdate
