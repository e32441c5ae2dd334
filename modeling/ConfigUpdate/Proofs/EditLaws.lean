import ConfigUpdate.Proofs.EditsInPlace

/-!
# Laws of edits

An edit of a tree can be looked up, leaves everything beside it as it was, and can be undone:
`Value.edits_lawful`. A replacement is undone by one with the node that was there, a removal by an insertion, and
an insertion of something that was missing, or of an item at a position, by a removal. An edit that fails does
nothing.
-/

namespace ConfigUpdate

namespace Value

variable {t t' v w old : Value} {ms : List (String × Value)} {xs : List Value} {s : Step} {p parent : Pointer}
  {location : String}

/-- Everywhere but at, above and below a place, two trees have the same nodes, or the same faults. -/
def SameBeside (p : Pointer) (t t' : Value) : Prop :=
  ∀ q, p.Apart q → t'.resolve q = t.resolve q

/-- What holds of the replacement of a node. -/
structure ReplaceLaws (t : Value) (p : Pointer) (v : Value) : Prop where
  /-- It gives back the node that the look-up finds, or fails as the look-up fails. -/
  answer : (t.replaceAt p v).map Prod.snd = t.resolve p
  found : ∀ t' old, t.replaceAt p v = .ok (t', old) → t'.resolve p = .ok v
  beside : ∀ t' old, t.replaceAt p v = .ok (t', old) → SameBeside p t t'
  undone : ∀ t' old, t.replaceAt p v = .ok (t', old) → t'.replaceAt p old = .ok (t, v)

/-- What holds of the removal of a node. -/
structure RemoveLaws (t : Value) (p : Pointer) : Prop where
  /-- It gives back the node that the look-up finds, or fails as the look-up fails. -/
  answer : (t.removeAt p).map Prod.snd = t.resolve p
  undone : ∀ t' old, t.removeAt p = .ok (t', old) → t'.insertAt p old = .ok t

/-- What holds of the insertion of a value as a member. -/
structure MemberLaws (t : Value) (p : Pointer) (v : Value) : Prop where
  succeeds : ∃ t', t.insertAt p v = .ok t'
  found : ∀ t', t.insertAt p v = .ok t' → t'.resolve p = .ok v
  beside : ∀ t', t.insertAt p v = .ok t' → SameBeside p t t'
  undone : ∀ t' e, t.resolve p = .error e → t.insertAt p v = .ok t' → t'.removeAt p = .ok (t, v)

/-- What holds of the insertion of a value at the position of an item, however the position is spelled. Behind
the last item it may be left open. -/
structure ItemLaws (t : Value) (parent : Pointer) (s : Step) (i : Nat) (v : Value) : Prop where
  succeeds : ∃ t', t.insertAt (parent ++ [s]) v = .ok t'
  undone : ∀ t', t.insertAt (parent ++ [s]) v = .ok t' →
    t'.removeAt (parent ++ [.index i]) = .ok (t, v) ∧
      (s ≠ .key "-" → t'.removeAt (parent ++ [s]) = .ok (t, v))

/-- An edit in place answers as the edit does and leaves the tree that the edit makes. If it fails, it leaves the
tree as it was. -/
structure InPlaceLaws (t : Value) (p : Pointer) (v : Value) : Prop where
  insert : insertInPlace p v t = t.settle ((t.insertAt p v).map fun t' => (t', ()))
  remove : removeInPlace p t = t.settle (t.removeAt p)
  replace : replaceInPlace p v t = t.settle (t.replaceAt p v)
  insertKeeps : (insertInPlace p v).Keeps t
  removeKeeps : (removeInPlace p).Keeps t
  replaceKeeps : (replaceInPlace p v).Keeps t

/-! ## One child -/

theorem removeChild_answer (s : Step) (location : String) (w : Value) :
    (removeChild s location w).map Prod.snd = w.child s location := by
  cases w with
  | scalar x => rfl
  | object ms =>
    simp only [removeChild, child]
    cases Dictionary.get? ms s.name <;> rfl
  | array xs =>
    simp only [removeChild, child]
    cases s.position xs.length false location with
    | error e => rfl
    | ok i =>
      simp only [bind, Except.bind]
      cases xs[i]? <;> rfl

/-- A child that has been taken away is put back. -/
theorem insertChild_of_removeChild {new : Value} (hw : w.WellFormed)
    (h : removeChild s location w = .ok (new, old)) (location' : String) :
    insertChild s old location' new = .ok (w, ()) := by
  cases w with
  | scalar x => cases h
  | object ms =>
    simp only [removeChild] at h
    split at h
    · rename_i hget
      cases h
      simp only [insertChild, Dictionary.insert_erase hw.1, Dictionary.insert_of_get? hw.1 hget]
    · cases h
  | array xs =>
    obtain ⟨i, hi, h⟩ := exists_of_bind_eq_ok h
    split at h
    · rename_i c hget
      cases h
      obtain ⟨hlt, rfl⟩ := List.getElem?_eq_some_iff.1 hget
      have hlength : (xs.eraseIdx i).length + 1 = xs.length := by
        rw [List.length_eraseIdx_of_lt hlt]
        omega
      have hspells : s.Spells i := (Step.position_inside hi).1
      have hposition : s.position (xs.eraseIdx i).length true location' = .ok i :=
        Step.position_eq_ok_iff.2 (.inr ⟨hspells, by simp only [if_true]; omega⟩)
      simp only [insertChild, hposition, bind, Except.bind, pure, Except.pure,
        List.insertIdx_eraseIdx_getElem hlt]
    · cases h

/-- A member that was missing is taken away again. -/
theorem removeChild_of_insertChild_object (hms : Dictionary.Sorted ms)
    (hmissing : Dictionary.get? ms s.name = none) (v : Value) (location : String) :
    removeChild s location (object (Dictionary.insert ms s.name v)) = .ok (object ms, v) := by
  have hget : Dictionary.get? (Dictionary.insert ms s.name v) s.name = some v := by
    rw [Dictionary.get?_insert, if_pos rfl]
  have hinsert := Dictionary.sorted_insert hms s.name v
  have herase : Dictionary.erase (Dictionary.insert ms s.name v) s.name = ms := by
    refine Dictionary.ext_of_sorted (Dictionary.sorted_erase hinsert s.name) hms fun key => ?_
    rw [Dictionary.get?_erase hinsert, Dictionary.get?_insert]
    split
    · rename_i hkey
      rw [← hkey, hmissing]
    · rfl
  simp only [removeChild, hget, herase]

/-- An item that was put in is taken out again. -/
theorem removeChild_of_insertIdx {i : Nat} (hi : i ≤ xs.length) (hs : s.Spells i) (v : Value) (location : String) :
    removeChild s location (array (xs.insertIdx i v)) = .ok (array xs, v) := by
  have hlength : (xs.insertIdx i v).length = xs.length + 1 := List.length_insertIdx_of_le_length hi v
  have hposition : s.position (xs.insertIdx i v).length false location = .ok i :=
    Step.position_eq_ok_iff.2 (.inr ⟨hs, by simp only [Bool.false_eq_true, if_false]; omega⟩)
  have hget : (xs.insertIdx i v)[i]? = some v := List.getElem?_insertIdx_self.trans (if_pos hi)
  simp only [removeChild, hposition, hget, bind, Except.bind]
  rw [List.eraseIdx_insertIdx_self]

/-! ## One place -/

theorem replaceAt_eq_ok_iff : t.replaceAt p v = .ok (t', old) ↔ t.resolve p = .ok old ∧ t' = t.assign p (some v) := by
  constructor
  · intro h
    obtain ⟨w, new, hw, hf, rfl⟩ := alterFrom_eq_ok_iff.1 h
    cases hf
    exact ⟨hw, rfl⟩
  · rintro ⟨hold, rfl⟩
    exact alterFrom_eq_ok_iff.2 ⟨old, v, hold, rfl, rfl⟩

/-- Below an object, inserting gives the place the value. -/
theorem insertAt_below_object (h : t.resolve parent = .ok (object ms)) (s : Step) (v : Value) :
    t.insertAt (parent ++ [s]) v = .ok (t.assign (parent ++ [s]) (some v)) := by
  have hedit : alterFrom "" (insertChild s v) t parent = .ok (t.assign (parent ++ [s]) (some v), ()) :=
    alterFrom_eq_ok_iff.2 ⟨object ms, _, h, rfl, assign_append h (List.cons_ne_nil s []) (some v)⟩
  rw [insertAt_concat, hedit]
  rfl

/-- Below an object, removing takes the content of the place away. -/
theorem removeAt_below_object (h : t.resolve parent = .ok (object ms)) (hold : t.resolve (parent ++ [s]) = .ok old) :
    t.removeAt (parent ++ [s]) = .ok (t.assign (parent ++ [s]) none, old) := by
  rw [resolve_concat, h] at hold
  have hget : Dictionary.get? ms s.name = some old := by
    rw [← slot_object]
    exact slot_eq_some_iff.2 hold
  have hremove : removeChild s (Pointer.textBelow "" parent) (object ms)
      = .ok (object (Dictionary.erase ms s.name), old) := by
    simp only [removeChild, hget]
  rw [removeAt_concat]
  exact alterFrom_eq_ok_iff.2 ⟨object ms, _, h, hremove, assign_append h (List.cons_ne_nil s []) none⟩

/-! ## The laws -/

theorem replaceLaws (ht : t.WellFormed) (p : Pointer) (v : Value) : ReplaceLaws t p v where
  answer := by
    rw [replaceAt, alterFrom_eq]
    show _ = resolveFrom "" t p
    cases resolveFrom "" t p <;> rfl
  found t' old h := by
    obtain ⟨hold, rfl⟩ := replaceAt_eq_ok_iff.1 h
    exact resolveFrom_assign_self hold v
  beside t' old h := by
    obtain ⟨-, rfl⟩ := replaceAt_eq_ok_iff.1 h
    exact fun q hq => resolveFrom_assign ht hq (some v) ""
  undone t' old h := by
    refine alterFrom_undo ht h fun w new _ hf => ?_
    cases hf
    rfl

theorem removeLaws (ht : t.WellFormed) (p : Pointer) : RemoveLaws t p := by
  obtain rfl | ⟨parent, s, rfl⟩ := List.eq_nil_or_concat' p
  · exact ⟨rfl, fun t' old h => by cases h; rfl⟩
  · constructor
    · rw [removeAt_concat, alterFrom_eq, resolve_concat]
      show _ = (resolveFrom "" t parent).bind _
      cases resolveFrom "" t parent with
      | error e => rfl
      | ok w =>
        show _ = w.child s (Pointer.textBelow "" parent)
        rw [← removeChild_answer]
        show ((removeChild s (Pointer.textBelow "" parent) w).bind _).map _ = _
        cases removeChild s (Pointer.textBelow "" parent) w <;> rfl
    · intro t' old h
      rw [removeAt_concat] at h
      refine insertAt_concat_eq_ok_iff.2 (alterFrom_undo ht h fun w new hw hf => ?_)
      exact insertChild_of_removeChild (wellFormed_resolveFrom ht hw) hf _

/-- A node that is there can be removed. -/
theorem exists_removeAt (ht : t.WellFormed) (h : t.resolve p = .ok v) : ∃ t', t.removeAt p = .ok (t', v) := by
  have hanswer := (removeLaws ht p).answer
  rw [h] at hanswer
  cases hremove : t.removeAt p with
  | error e =>
    rw [hremove] at hanswer
    cases hanswer
  | ok r =>
    rw [hremove] at hanswer
    cases hanswer
    exact ⟨r.1, rfl⟩

theorem memberLaws (ht : t.WellFormed) (h : t.resolve parent = .ok (object ms)) (s : Step) (v : Value) :
    MemberLaws t (parent ++ [s]) v := by
  have hinsert := insertAt_below_object h s v
  have hparent := assign_append h (List.cons_ne_nil s []) (some v)
  have hnew : (t.assign (parent ++ [s]) (some v)).resolve parent
      = .ok (object (Dictionary.insert ms s.name v)) := by
    rw [hparent]
    exact resolveFrom_assign_self h _
  refine ⟨⟨_, hinsert⟩, fun t' ht' => ?_, fun t' ht' => ?_, fun t' e hmissing ht' => ?_⟩
  · obtain rfl := Except.ok.inj (hinsert.symm.trans ht')
    rw [resolve_concat, hnew]
    simp only [Except.bind, child, Dictionary.get?_insert, if_true]
  · obtain rfl := Except.ok.inj (hinsert.symm.trans ht')
    exact fun q hq => resolveFrom_assign ht hq (some v) ""
  · have hget : Dictionary.get? ms s.name = none := by
      rw [resolve_concat, h] at hmissing
      rw [← slot_object, slot, toOption_child _ s "" parent.text]
      exact congrArg Except.toOption hmissing
    rw [removeAt_concat]
    refine alterFrom_undo ht (insertAt_concat_eq_ok_iff.1 ht') fun w new hw hf => ?_
    obtain rfl := Except.ok.inj (h.symm.trans hw)
    cases hf
    exact removeChild_of_insertChild_object (wellFormed_resolveFrom ht h).1 hget v _

theorem itemLaws (ht : t.WellFormed) {i : Nat} (h : t.resolve parent = .ok (array xs))
    (hi : s.position xs.length true parent.text = .ok i) (v : Value) : ItemLaws t parent s i v := by
  have hinsert : insertChild s v parent.text (array xs) = .ok (array (xs.insertIdx i v), ()) := by
    simp only [insertChild, hi, bind, Except.bind, pure, Except.pure]
  refine ⟨⟨_, insertAt_concat_eq_ok_iff.2 (alterFrom_eq_ok_iff.2 ⟨_, _, h, hinsert, rfl⟩)⟩, fun t' ht' => ?_⟩
  have hedit := insertAt_concat_eq_ok_iff.1 ht'
  have hundo {r : Step} (hr : r.Spells i) : t'.removeAt (parent ++ [r]) = .ok (t, v) := by
    rw [removeAt_concat]
    refine alterFrom_undo ht hedit fun w new hw hf => ?_
    obtain rfl := Except.ok.inj (h.symm.trans hw)
    obtain ⟨rfl, -⟩ := Prod.mk.inj (Except.ok.inj (hinsert.symm.trans hf))
    exact removeChild_of_insertIdx (Step.position_atEnd_le hi) hr v _
  refine ⟨hundo rfl, fun hs => ?_⟩
  obtain ⟨-, hend, -⟩ | ⟨hspells, -⟩ := Step.position_eq_ok_iff.1 hi
  · exact absurd hend hs
  · exact hundo hspells

theorem inPlaceLaws (ht : t.WellFormed) (p : Pointer) (v : Value) : InPlaceLaws t p v where
  insert := insertInPlace_eq ht p v
  remove := removeInPlace_eq ht p
  replace := replaceInPlace_eq ht p v
  insertKeeps := keeps_of_eq_settle (insertInPlace_eq ht p v)
  removeKeeps := keeps_of_eq_settle (removeInPlace_eq ht p)
  replaceKeeps := keeps_of_eq_settle (replaceInPlace_eq ht p v)

/-- The laws of edits at any place of any tree, with any value: of the replacement and the removal of a node, of
the insertion as a member of an object, of the insertion at a position of an array, and of edits in place. -/
theorem edits_lawful (t : Value) (ht : t.WellFormed) (p : Pointer) (v : Value) :
    ReplaceLaws t p v ∧ RemoveLaws t p ∧
      (∀ parent s ms, p = parent ++ [s] → t.resolve parent = .ok (object ms) → MemberLaws t p v) ∧
      (∀ parent s xs i, p = parent ++ [s] → t.resolve parent = .ok (array xs) →
        s.position xs.length true parent.text = .ok i → ItemLaws t parent s i v) ∧
      InPlaceLaws t p v := by
  refine ⟨replaceLaws ht p v, removeLaws ht p, fun parent s ms hp h => ?_, fun parent s xs i _ h hi => ?_,
    inPlaceLaws ht p v⟩
  · rw [hp]
    exact memberLaws ht h s v
  · exact itemLaws ht h hi v

/-- A tree with a VLAN that has two members. -/
def vlanOfTwo : Value :=
  .object [("VLAN", .object [("Vlan10", .object
    [("members", .array [.ofString "Ethernet0", .ofString "Ethernet4"])])])]

/-- The second member of the VLAN. -/
def secondMember : Pointer := [.key "VLAN", .key "Vlan10", .key "members", .key "1"]

theorem edits_lawful_secondMember : vlanOfTwo.WellFormed ∧
    ReplaceLaws vlanOfTwo secondMember (.ofString "Ethernet8") ∧
    (vlanOfTwo.insertAt secondMember (.ofString "Ethernet8")).bind (·.removeAt secondMember)
      = .ok (vlanOfTwo, .ofString "Ethernet8") ∧
    (replaceInPlace secondMember (.ofString "Ethernet8")).Keeps vlanOfTwo := by
  have ht : vlanOfTwo.WellFormed := by decide
  obtain ⟨hreplace, -, -, hitem, hplace⟩ := edits_lawful vlanOfTwo ht secondMember (.ofString "Ethernet8")
  have hlaws := hitem [.key "VLAN", .key "Vlan10", .key "members"] (.key "1") _ 1 rfl rfl rfl
  obtain ⟨t', ht'⟩ := hlaws.succeeds
  refine ⟨ht, hreplace, ?_, hplace.replaceKeeps⟩
  show Except.bind (vlanOfTwo.insertAt ([.key "VLAN", .key "Vlan10", .key "members"] ++ [.key "1"]) _) _ = _
  rw [ht']
  exact (hlaws.undone t' ht').2 nofun

end Value

end ConfigUpdate
