import ConfigUpdate.Apply
import ConfigUpdate.Proofs.ObjectStep

/-!
# One move in the slice that it addresses

A move in a store is made in a small tree, the view of the part that it addresses, and what it makes of
that is written back. Over the tables of a store in memory this is the same as making it in the whole
tree (`step_slice`), as long as the whole tree has the table below which the path of the move
leads, and what the move finds there is a table.
-/

namespace ConfigUpdate

/-- The tree with an empty table below which the path of the move leads, if there is none. -/
def Move.ground (m : Move) : Value → Value
  | .object ts =>
    match m.path with
    | t :: _ :: _ =>
      if Dictionary.contains ts t.name then .object ts
      else .object (Dictionary.insert ts t.name .empty)
    | _ => .object ts
  | tree => tree

/-- What the move finds where its path leads below a table is one, or there is nothing. -/
def Move.MeetsTable (m : Move) (tree : Value) : Prop :=
  ∀ t k p, m.path = t :: k :: p → ∀ table, tree.get? t.name = some table → table.isObject = true

/-- The write that leaves an entry as given. -/
def Write.putEntry (table key : String) : Option Value → Write
  | some v => .setEntry table key v
  | none => .deleteEntry table key

/-- The tables after a list of writes. -/
def Write.runAll (ws : List Write) (ts : Tables) : Tables :=
  ws.foldl (fun ts w => w.run ts) ts

theorem sorted_run (w : Write) {ts : Tables} (hts : ts.Sorted) : (w.run ts).Sorted := by
  cases w with
  | setEntry t k v => exact Dictionary.sorted_insert hts t _
  | deleteEntry t k =>
    simp only [Write.run]
    split
    · exact Dictionary.sorted_insert hts t _
    · exact hts
  | deleteTable t => exact Dictionary.sorted_erase hts t
  | setTable t v => exact Dictionary.sorted_insert hts t v

theorem sorted_runAll (ws : List Write) {ts : Tables} (hts : ts.Sorted) :
    (Write.runAll ws ts).Sorted := by
  induction ws generalizing ts with
  | nil => exact hts
  | cons w ws ih => exact ih (sorted_run w hts)

theorem writeAll_memory (ws : List Write) (ts : Tables) :
    Store.memory.writeAll ws ts = (.ok (), Write.runAll ws ts) := by
  induction ws generalizing ts with
  | nil => rfl
  | cons w ws ih => exact ih (w.run ts)

theorem makeMove_memory (m : Move) (ts : Tables) :
    Store.memory.makeMove m ts =
      match m.step ((Slice.ofPath m.path).view ts.toTree) with
      | .error e => (.error (.drift e), ts)
      | .ok after => (.ok (), Write.runAll
          ((Slice.ofPath m.path).writes ((Slice.ofPath m.path).view ts.toTree) after) ts) := by
  simp only [Store.makeMove, Store.memory]
  cases m.step ((Slice.ofPath m.path).view ts.toTree) with
  | error e => rfl
  | ok after =>
    have hwrite := writeAll_memory
      ((Slice.ofPath m.path).writes ((Slice.ofPath m.path).view ts.toTree) after) ts
    simp only [Store.memory] at hwrite
    simp only [hwrite]

/-! ## A table -/

section Table

variable {ts : Tables} {t : String}

theorem view_table : (Slice.table t).view ts.toTree =
    .object ((Dictionary.get? ts t).toList.map fun v => (t, v)) := rfl

theorem get?_singleton {o : Option Value} {k : String} :
    Dictionary.get? (o.toList.map fun v => (k, v)) k = o := by
  cases o <;> simp [Dictionary.get?]

theorem sorted_singleton {o : Option Value} {k : String} :
    Dictionary.Sorted (o.toList.map fun v => (k, v)) := by
  cases o <;> simp [Dictionary.Sorted]

theorem runAll_writes_table {before after : Value} :
    Write.runAll ((Slice.table t).writes before after) ts = Dictionary.put ts t (after.get? t) := by
  simp only [Slice.writes]
  cases after.get? t <;> rfl

/-- The move of a table is made in the table alone. -/
theorem step_table {m : Move} {s : Step} (hp : m.path = [s]) (ts : Tables) :
    ((m.step ((Slice.table s.name).view ts.toTree)).toOption.map fun after =>
      Value.object (Write.runAll
        ((Slice.table s.name).writes ((Slice.table s.name).view ts.toTree) after) ts))
      = (m.step (.object ts)).toOption := by
  simp only [runAll_writes_table]
  rw [view_table, Move.toOption_step_object hp, Move.toOption_step_object hp, get?_singleton,
    Option.map_map]
  congr 1
  funext slot
  have hslot : (Value.object (Dictionary.put ((Dictionary.get? ts s.name).toList.map
      fun v => (s.name, v)) s.name slot)).get? s.name = slot := by
    rw [Value.get?, Dictionary.get?_put sorted_singleton, if_pos rfl]
  simp only [Function.comp_apply, hslot]

end Table

/-! ## An entry -/

section Entry

variable {ts : Tables} {t k : String}

theorem view_entry : (Slice.entry t k).view ts.toTree =
    .object [(t, .object ((ts.entryAt? t k).toList.map fun v => (k, v)))] := rfl

theorem runAll_writes_entry {before after : Value} :
    Write.runAll ((Slice.entry t k).writes before after) ts
      = (Write.putEntry t k ((Tables.ofTree after).entryAt? t k)).run ts := by
  simp only [Slice.writes]
  cases (Tables.ofTree after).entryAt? t k <;> rfl

/-- A move of an entry, or below one, in an object with a table. -/
theorem step_below_table {m : Move} {s s' : Step} {p : Pointer} (hp : m.path = s :: s' :: p)
    {gs es : List (String × Value)} (ht : Dictionary.get? gs s.name = some (.object es)) :
    (m.step (.object gs)).toOption
      = (m.below.slotStep (Dictionary.get? es s'.name)).map fun slot =>
        .object (Dictionary.insert gs s.name (.object (Dictionary.put es s'.name slot))) := by
  have hbelow : m.below.path = s' :: p := by simp [Move.below, hp]
  rw [Move.toOption_step_object hp, ht]
  simp only [Move.slotStep, hp, Option.bind_some]
  rw [Move.toOption_step_object hbelow]
  simp only [Option.map_map]
  rfl

/-- Only what is there can be taken away. -/
theorem isSome_of_slotStep_none {m : Move} {o : Option Value} (h : m.slotStep o = some none) :
    o.isSome = true := by
  cases o with
  | some v => rfl
  | none =>
    unfold Move.slotStep at h
    split at h
    · cases h
    · split at h
      · unfold Move.change at h
        split at h <;> simp_all
      · cases h

/-- The grounded tree has the table, with the entries that the store has. -/
theorem ground_object {m : Move} {s s' : Step} {p : Pointer} (hp : m.path = s :: s' :: p)
    (hmeets : m.MeetsTable (.object ts)) :
    ∃ gs, m.ground (.object ts) = .object gs ∧
      Dictionary.get? gs s.name = some (.object (ts.entries s.name)) ∧
      ∀ v, Dictionary.insert gs s.name v = Dictionary.insert ts s.name v := by
  cases ht : Dictionary.get? ts s.name with
  | none =>
    refine ⟨Dictionary.insert ts s.name .empty, ?_, ?_, Dictionary.insert_insert ts s.name .empty⟩
    · simp [Move.ground, hp, Dictionary.contains, ht]
    · simp [Dictionary.get?_insert, Tables.entries, ht, Value.empty]
  | some table =>
    obtain ⟨es, rfl⟩ := Value.eq_object_of_isObject (hmeets s s' p hp table ht)
    refine ⟨ts, ?_, ?_, fun v => rfl⟩
    · simp [Move.ground, hp, Dictionary.contains, ht]
    · simp [Tables.entries, ht, Value.members?]

/-- What is written for an entry is what the move makes of it. -/
theorem run_putEntry {slot : Option Value} (hmeets : ∀ table, Dictionary.get? ts t = some table →
    table.isObject = true) (hslot : slot = none → (Dictionary.get? (ts.entries t) k).isSome = true) :
    (Write.putEntry t k slot).run ts
      = Dictionary.insert ts t (.object (Dictionary.put (ts.entries t) k slot)) := by
  cases slot with
  | some v => rfl
  | none =>
    have hsome := hslot rfl
    cases ht : Dictionary.get? ts t with
    | none => simp [Tables.entries, ht] at hsome
    | some table =>
      obtain ⟨es, rfl⟩ := Value.eq_object_of_isObject (hmeets table ht)
      simp [Write.putEntry, Write.run, ht, Tables.entries, Value.members?, Dictionary.put]

/-- The move of an entry, or below one, is made in the entry alone. -/
theorem step_entry {m : Move} {s s' : Step} {p : Pointer} (hp : m.path = s :: s' :: p)
    (hmeets : m.MeetsTable (.object ts)) :
    ((m.step ((Slice.entry s.name s'.name).view ts.toTree)).toOption.map fun after =>
      Value.object (Write.runAll ((Slice.entry s.name s'.name).writes
        ((Slice.entry s.name s'.name).view ts.toTree) after) ts))
      = (m.step (m.ground (.object ts))).toOption := by
  have htable := hmeets s s' p hp
  obtain ⟨gs, hground, hgs, hinsert⟩ := ground_object hp hmeets
  have hview : Dictionary.get? [(s.name, Value.object ((ts.entryAt? s.name s'.name).toList.map
      fun v => (s'.name, v)))] s.name
        = some (.object ((ts.entryAt? s.name s'.name).toList.map fun v => (s'.name, v))) :=
    if_pos rfl
  simp only [runAll_writes_entry]
  rw [hground, step_below_table hp hgs, view_entry, step_below_table hp hview, get?_singleton,
    Tables.entryAt?_eq_get?_entries]
  cases hs : m.below.slotStep (Dictionary.get? (ts.entries s.name) s'.name) with
  | none => rfl
  | some slot =>
    have hnone : slot = none → (Dictionary.get? (ts.entries s.name) s'.name).isSome = true := by
      rintro rfl
      exact isSome_of_slotStep_none hs
    simp only [Option.map_some, Option.some.injEq, Value.object.injEq]
    have hread : ∀ vs es : Dictionary String Value, es.Sorted → (Tables.ofTree (.object
        (Dictionary.insert vs s.name (.object (Dictionary.put es s'.name slot))))).entryAt?
          s.name s'.name = slot := by
      intro vs es hes
      simp [Tables.ofTree, Value.members?, Tables.entryAt?, Dictionary.get?_insert, Value.get?,
        Dictionary.get?_put hes]
    rw [hinsert, ← run_putEntry htable hnone, hread _ _ sorted_singleton]

end Entry

/-! ## The whole configuration -/

section Whole

variable {ts ns : Tables}

theorem runAll_append (ws ws' : List Write) (ts : Tables) :
    Write.runAll (ws ++ ws') ts = Write.runAll ws' (Write.runAll ws ts) :=
  List.foldl_append

theorem get?_deleteTables (hts : ts.Sorted) (names : List String) (t : String) :
    Dictionary.get? (Write.runAll (names.map .deleteTable) ts) t
      = if t ∈ names then none else Dictionary.get? ts t := by
  induction names generalizing ts with
  | nil => rfl
  | cons name names ih =>
    refine (ih (Dictionary.sorted_erase hts name)).trans ?_
    rw [Dictionary.get?_erase hts]
    by_cases ht : t ∈ names <;> by_cases hname : t = name <;> simp [ht, hname, eq_comm]

theorem get?_setTables (hns : ns.Sorted) (t : String) :
    Dictionary.get? (Write.runAll (ns.map fun n => .setTable n.1 n.2) ts) t
      = (Dictionary.get? ns t).or (Dictionary.get? ts t) := by
  rw [Write.runAll, List.foldl_map]
  exact Dictionary.get?_foldl_insert hns.nodup_keys ts t

/-- Writing the differences between two configurations makes the one equal to the other. -/
theorem same_writesOfTables (hts : ts.Sorted) (hns : ns.Sorted) :
    (Value.object (Write.runAll (Slice.writesOfTables ts ns) ts)).same (.object ns) = true := by
  refine Value.sameMembers_of_forall (sorted_runAll _ hts) hns fun t => ?_
  have hset : Dictionary.Sorted (ns.filter fun n => !(Dictionary.get? ts n.1).any (· == n.2)) :=
    hns.sublist List.filter_sublist
  rw [Slice.writesOfTables, runAll_append, get?_setTables hset, get?_deleteTables hts,
    Dictionary.get?_filter hns]
  -- A table is deleted, written, or equal already and left as it is.
  cases hn : Dictionary.get? ns t with
  | none =>
    cases ht : Dictionary.get? ts t with
    | none => simp [Value.SameOption]
    | some u =>
      have hmem : t ∈ ts.keys := List.mem_map_of_mem (Dictionary.mem_of_get? ht)
      simp [Dictionary.contains, hn, hmem, Value.SameOption]
  | some v =>
    cases ht : Dictionary.get? ts t with
    | none => simp [Option.filter_some, ht, Value.SameOption, Value.same_refl]
    | some u =>
      cases huv : u == v with
      | false => simp [Option.filter_some, ht, huv, Value.SameOption, Value.same_refl]
      | true =>
        have hsame : u.same v = true := huv
        simp only [Option.filter_some, ht, Option.any_some, huv, Dictionary.contains]
        simpa [hn, Value.SameOption] using hsame

/-- A move of the whole configuration leaves the value that it brings. -/
theorem wellFormed_step_root {m : Move} (hp : m.path = [])
    (hvalue : ∀ v, m.value = some v → v.WellFormed) {tree after : Value}
    (h : m.step tree = .ok after) : after.WellFormed := by
  obtain ⟨-, hrun⟩ := Move.step_eq_ok_iff.1 h
  have hnew : (m.value.getD .empty).WellFormed := by
    cases hm : m.value with
    | none => exact Value.wellFormed_empty
    | some v => exact hvalue v hm
  cases hk : m.kind with
  | add =>
    have heq : m.value.getD .empty = after := by
      simpa [Move.run, hk, Value.insertAt, hp, pure, Except.pure] using hrun
    exact heq ▸ hnew
  | remove =>
    have heq : Value.empty = after := by
      simpa [Move.run, hk, Value.removeAt, hp, bind, Except.bind, pure, Except.pure] using hrun
    exact heq ▸ Value.wellFormed_empty
  | replace =>
    have heq : m.value.getD .empty = after := by
      simpa [Move.run, hk, Value.replaceAt, Value.alterFrom, hp, bind, Except.bind, pure,
        Except.pure] using hrun
    exact heq ▸ hnew

end Whole

/-! ## All slices -/

/-- What the move makes of its slice, written back, is what it makes of the whole tree. -/
theorem step_slice {m : Move} {s : Step} {p : Pointer} (hp : m.path = s :: p) {ts : Tables}
    (hmeets : m.MeetsTable (.object ts)) :
    ((m.step ((Slice.ofPath m.path).view ts.toTree)).toOption.map fun after =>
      Value.object (Write.runAll ((Slice.ofPath m.path).writes
        ((Slice.ofPath m.path).view ts.toTree) after) ts))
      = (m.step (m.ground (.object ts))).toOption := by
  cases p with
  | nil =>
    have hground : m.ground (.object ts) = .object ts := by simp [Move.ground, hp]
    rw [hground, hp]
    exact step_table hp ts
  | cons s' p =>
    rw [hp]
    exact step_entry hp hmeets

/-- A move of the whole configuration, written back table by table. -/
theorem same_writes_whole {m : Move} (hp : m.path = []) {ts : Tables} (hts : ts.Sorted)
    (hvalue : ∀ v, m.value = some v → v.WellFormed) {after : Value}
    (h : m.step (.object ts) = .ok after) (hobject : after.isObject = true) :
    (Value.object (Write.runAll (Slice.whole.writes ts.toTree after) ts)).same after = true := by
  have hafter := wellFormed_step_root hp hvalue h
  obtain ⟨ns, rfl⟩ := Value.eq_object_of_isObject hobject
  exact same_writesOfTables hts hafter.1

/-- A move in the store fails where it fails in the whole tree, and otherwise leaves tables that are
equal to the tree after it. -/
theorem makeMove_simulates {m : Move} {ts : Tables} (hts : ts.Sorted)
    (hvalue : ∀ v, m.value = some v → v.WellFormed) (hmeets : m.MeetsTable (.object ts))
    (hroot : m.path = [] → ∀ after, m.step (.object ts) = .ok after → after.isObject = true) :
    ((m.step (m.ground (.object ts))).toOption = none ∧
      ∃ cause, Store.memory.makeMove m ts = (.error (.drift cause), ts)) ∨
    ∃ after ts', (m.step (m.ground (.object ts))).toOption = some after ∧
      Store.memory.makeMove m ts = (.ok (), ts') ∧ ts'.Sorted ∧
      (Value.object ts').same after = true := by
  rw [makeMove_memory]
  cases hp : m.path with
  | nil =>
    have hground : m.ground (.object ts) = .object ts := by simp [Move.ground, hp]
    rw [hground]
    cases hstep : m.step (.object ts) with
    | error e =>
      have hview : m.step ((Slice.ofPath []).view ts.toTree) = .error e := hstep
      exact .inl ⟨rfl, e, by rw [hview]⟩
    | ok after =>
      have hview : m.step ((Slice.ofPath []).view ts.toTree) = .ok after := hstep
      refine .inr ⟨after, _, rfl, by rw [hview], sorted_runAll _ hts, ?_⟩
      exact same_writes_whole hp hts hvalue hstep (hroot hp after hstep)
  | cons s p =>
    have hslice := step_slice hp hmeets
    rw [hp] at hslice
    cases hview : m.step ((Slice.ofPath (s :: p)).view ts.toTree) with
    | error e =>
      rw [hview] at hslice
      exact .inl ⟨hslice.symm, e, rfl⟩
    | ok after =>
      rw [hview] at hslice
      exact .inr ⟨_, _, hslice.symm, rfl, sorted_runAll _ hts, Value.same_refl _⟩

end ConfigUpdate
