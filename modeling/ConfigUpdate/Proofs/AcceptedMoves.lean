import ConfigUpdate.Gate.Basic
import ConfigUpdate.Proofs.DiffPlaces
import ConfigUpdate.Proofs.ObjectStep
import ConfigUpdate.Rules.Builtin

/-!
# Moves that the gate accepts

The gate accepts a plan exactly if it accepts every move of it, and an edit below the root exactly if all checks
of its table do (`checkBelowRoot_eq_ok_iff`). A difference changes a field at the field itself, with its entry,
with its table or with the whole configuration; in each case there is an accepted edit of the table that touches
the field and gives its new value (`exists_touch`). A member that goes while the object around it stays is
removed by an accepted edit of its own (`exists_removing_edit`).
-/

namespace ConfigUpdate

theorem MoveKind.verb_eq_remove_iff {kind : MoveKind} : kind.verb = .remove ↔ kind = .remove := by
  cases kind <;> simp [verb]

namespace Edit

variable {e : Edit} {table key field : String} {v x : Value}

theorem table_of_path {ks : List String} (hpath : e.path = Pointer.ofNames (table :: ks)) :
    e.table = table := by
  rw [Edit.table, hpath]
  rfl

theorem mem_entryFields (key : String) {entry : Value} (h : entry.get? field = some x) :
    (⟨key, field, some x⟩ : FieldTouch) ∈ entryFields key entry := by
  cases entry with
  | object fs => exact List.mem_map.2 ⟨(field, x), Dictionary.mem_of_get? h, rfl⟩
  | scalar s => cases h
  | array xs => cases h

theorem mem_fields_of_table (hpath : e.path = Pointer.ofNames [table]) (hvalue : e.value = some v)
    {entry : Value} (hentry : v.get? key = some entry) (hx : entry.get? field = some x) :
    (⟨key, field, some x⟩ : FieldTouch) ∈ e.fields := by
  cases v with
  | object es =>
    simp only [fields, hpath, hvalue]
    exact List.mem_flatMap.2 ⟨(key, entry), Dictionary.mem_of_get? hentry, mem_entryFields key hx⟩
  | scalar s => cases hentry
  | array xs => cases hentry

theorem mem_fields_of_entry (hpath : e.path = Pointer.ofNames [table, key]) (hvalue : e.value = some v)
    (hx : v.get? field = some x) : (⟨key, field, some x⟩ : FieldTouch) ∈ e.fields := by
  have hkey : e.entryKey = key := by
    rw [entryKey, hpath]
    rfl
  have hfields : e.fields = entryFields key v := by
    simp only [fields, hpath, hvalue, hkey]
    rfl
  rw [hfields]
  exact mem_entryFields key hx

theorem fields_of_field (hpath : e.path = Pointer.ofNames [table, key, field]) :
    e.fields = [⟨key, field, e.value⟩] := by
  simp only [fields, entryKey, hpath]
  rfl

/-- An edit at or above a field that carries a value for it touches the field with that value. -/
theorem mem_fields {above rest : List String} (hpath : e.path = Pointer.ofNames above) (hbelow : above ≠ [])
    (hvalue : e.value = some v) (hplace : above ++ rest = [table, key, field])
    (hx : v.memberAt rest = some x) :
    e.table = table ∧ (⟨key, field, some x⟩ : FieldTouch) ∈ e.fields := by
  match above, hbelow with
  | [t], _ =>
    simp only [List.cons_append, List.nil_append, List.cons.injEq] at hplace
    obtain ⟨rfl, rfl⟩ := hplace
    obtain ⟨entry, hentry, hfield⟩ := Option.bind_eq_some_iff.1 hx
    obtain ⟨y, hy, hyx⟩ := Option.bind_eq_some_iff.1 hfield
    cases hyx
    exact ⟨table_of_path hpath, mem_fields_of_table hpath hvalue hentry hy⟩
  | [t, k], _ =>
    simp only [List.cons_append, List.nil_append, List.cons.injEq] at hplace
    obtain ⟨rfl, rfl, rfl⟩ := hplace
    obtain ⟨y, hy, hyx⟩ := Option.bind_eq_some_iff.1 hx
    cases hyx
    exact ⟨table_of_path hpath, mem_fields_of_entry hpath hvalue hy⟩
  | [t, k, f], _ =>
    simp only [List.cons_append, List.nil_append, List.cons.injEq] at hplace
    obtain ⟨rfl, rfl, rfl, rfl⟩ := hplace
    cases hx
    refine ⟨table_of_path hpath, ?_⟩
    rw [fields_of_field hpath, hvalue]
    exact List.mem_singleton_self _
  | _ :: _ :: _ :: _ :: _, _ => simp at hplace

end Edit

namespace Gate

variable {g : Gate} {scope : Scope} {current target : Value}

theorem checkBelowRoot_eq_ok_iff {e : Edit} : g.checkBelowRoot scope e = .ok () ↔
    checkProtected e = .ok () ∧ ∀ c ∈ TableCheck.ofTable e.table, g.checkTable scope e c = .ok () := by
  rw [← forM_eq_ok_iff]
  exact bind_eq_ok_iff

theorem check_of_mem {moves : List Move} (h : g.checkMoves scope moves = .ok ()) {m : Move} (hm : m ∈ moves) :
    g.check scope m.edit = .ok () :=
  forM_eq_ok_iff.1 h m hm

theorem checkBelowRoot_of_check {e : Edit} (h : g.check scope e = .ok ()) (hp : e.path ≠ []) :
    g.checkBelowRoot scope e = .ok () := by
  rwa [check, if_neg (by simpa using hp)] at h

theorem checkBelowRoot_of_root {e : Edit} (h : g.check scope e = .ok ()) (hp : e.path = []) {v t : Value}
    {table : String} (hvalue : e.value = some v) (ht : v.get? table = some t) :
    g.checkBelowRoot scope ⟨e.verb, Pointer.ofNames [table], some t⟩ = .ok () := by
  rw [check, if_pos (by simp [hp]), forM_eq_ok_iff] at h
  cases v with
  | object ts =>
    refine h _ (List.mem_map.2 ⟨(table, t), ?_, rfl⟩)
    simpa [hvalue, Value.members?] using Dictionary.mem_of_get? ht
  | scalar s => cases ht
  | array xs => cases ht

/-- The gate has looked at every field that an accepted difference writes: there is an accepted edit of the table
that touches the field, with the verb of the move that writes it, which does not remove. Below the root this is
the edit of the move. -/
theorem exists_touch (hc : current.WellFormed) (ht : target.WellFormed)
    (hok : g.checkMoves scope (diff current target) = .ok ()) {m : Move} (hm : m ∈ diff current target)
    {table key field : String} (hp : m.path <+: Pointer.ofNames [table, key, field]) {x : Value}
    (hx : target.memberAt [table, key, field] = some x) :
    ∃ e : Edit, e.verb = m.kind.verb ∧ e.verb ≠ .remove ∧ (m.path ≠ [] → e.path = m.path) ∧
      g.checkBelowRoot scope e = .ok () ∧ e.table = table ∧
      (⟨key, field, some x⟩ : FieldTouch) ∈ e.fields := by
  obtain ⟨above, hpath, -, hvalue, hkind, -⟩ := exists_place hc ht hm
  rw [hpath, ofNames_prefix_iff] at hp
  obtain ⟨rest, hplace⟩ := hp
  rw [← hplace, Value.memberAt_append, hvalue] at hx
  obtain ⟨v, hv, hx⟩ := Option.bind_eq_some_iff.1 hx
  have hcheck := check_of_mem hok hm
  have hverb : m.kind.verb ≠ .remove := by
    rw [Ne, MoveKind.verb_eq_remove_iff, hkind, hv]
    exact nofun
  cases above with
  | nil =>
    -- The whole configuration is replaced, and its tables are checked one by one.
    obtain rfl : rest = [table, key, field] := hplace
    obtain ⟨t, hget, hfield⟩ := Option.bind_eq_some_iff.1 hx
    have hcheck := checkBelowRoot_of_root hcheck hpath hv hget
    refine ⟨_, rfl, hverb, fun hne => absurd hpath hne, hcheck, ?_⟩
    exact Edit.mem_fields rfl (List.cons_ne_nil table []) rfl rfl hfield
  | cons t above =>
    have hne : m.edit.path ≠ [] := by
      rw [Move.edit, hpath]
      exact List.cons_ne_nil _ _
    refine ⟨m.edit, rfl, hverb, fun _ => rfl, checkBelowRoot_of_check hcheck hne, ?_⟩
    exact Edit.mem_fields hpath (List.cons_ne_nil t above) hv hplace hx

/-- The gate has looked at every member that an accepted difference removes from an object that stays. -/
theorem exists_removing_edit (hc : current.WellFormed) (ht : target.WellFormed)
    (hok : g.checkMoves scope (diff current target) = .ok ()) {around : List String} {key : String} {x : Value}
    {ms : List (String × Value)} (hx : current.memberAt (around ++ [key]) = some x)
    (hnone : target.memberAt (around ++ [key]) = none) (hms : target.memberAt around = some (.object ms)) :
    ∃ e : Edit, e.verb = .remove ∧ e.path = Pointer.ofNames (around ++ [key]) ∧
      g.checkBelowRoot scope e = .ok () := by
  obtain ⟨m, hm, hremove, hpath⟩ := exists_removal hc ht hx hnone hms
  have hne : m.edit.path ≠ [] := by
    rw [Move.edit, hpath]
    simp [Pointer.ofNames]
  refine ⟨m.edit, ?_, hpath, checkBelowRoot_of_check (check_of_mem hok hm) hne⟩
  rw [Move.edit, hremove]
  rfl

/-- A gate with the built-in rules, on a switch of the first family of its vendor. -/
def onFirstFamily (published : PublishedTrees) : Gate where
  platform := ⟨"mellanox", "ACS-MSN2700", "SONiC.20220530", false⟩
  rules := .builtin
  state := published.state

end Gate

end ConfigUpdate
