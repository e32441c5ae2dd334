import ConfigUpdate.Proofs.BlendStep
import ConfigUpdate.Proofs.DiffApply
import ConfigUpdate.Store.Faulty

/-!
# Stores that lose empty tables

Some stores lose a table with its last entry, or with a write that leaves it without entries, and have it again
with its first entry. Such a store lags behind the tree by empty tables and by nothing else (`Lags`), and no
table lags that is still to be removed or added as a whole. So the moves of a difference are all made there, in
any order, and what is left differs from the target by empty tables at most: `Store.KeepsEntries.delivers`.
-/

namespace ConfigUpdate

/-- What a store has of a table that should be as given: an empty table may be missing. -/
def Lags (held due : Option Value) : Prop :=
  held = due ∨ held = none ∧ due = some .empty

/-- Only an empty table equals an empty one. -/
theorem Value.eq_some_empty_of_sameOption {o o' : Option Value} (h : SameOption o o') (ho : o = some .empty) :
    o' = some .empty := by
  subst ho
  rcases o' with _ | s | xs | _ | ⟨e, es⟩
  · exact h.elim
  · cases h
  · cases h
  · rfl
  · cases h

namespace Tables

variable {ts us : Tables}

theorem get?_dropEmpty_of_ne (hts : ts.Sorted) {t : String} (h : Dictionary.get? ts t ≠ some .empty) :
    Dictionary.get? ts.dropEmpty t = Dictionary.get? ts t := by
  rw [dropEmpty, Dictionary.get?_filter hts]
  rcases hget : Dictionary.get? ts t with _ | (s | xs | _ | ⟨e, es⟩)
  · rfl
  · rfl
  · rfl
  · exact absurd hget h
  · rfl

theorem get?_dropEmpty_of_empty (hts : ts.Sorted) {t : String} (h : Dictionary.get? ts t = some .empty) :
    Dictionary.get? ts.dropEmpty t = none := by
  rw [dropEmpty, Dictionary.get?_filter hts, h]
  rfl

theorem sorted_dropEmpty (hts : ts.Sorted) : ts.dropEmpty.Sorted :=
  hts.sublist List.filter_sublist

theorem dropEmpty_ne_empty (hts : ts.Sorted) (t : String) : Dictionary.get? ts.dropEmpty t ≠ some .empty := by
  by_cases h : Dictionary.get? ts t = some .empty
  · rw [get?_dropEmpty_of_empty hts h]
    exact fun h => by cases h
  · rw [get?_dropEmpty_of_ne hts h]
    exact h

theorem lags_dropEmpty (hts : ts.Sorted) (t : String) :
    Lags (Dictionary.get? ts.dropEmpty t) (Dictionary.get? ts t) := by
  by_cases h : Dictionary.get? ts t = some .empty
  · exact .inr ⟨get?_dropEmpty_of_empty hts h, h⟩
  · exact .inl (get?_dropEmpty_of_ne hts h)

/-- Without empty tables there is nothing to lag behind. -/
theorem dropEmpty_eq_of_lags (hts : ts.Sorted) (hus : us.Sorted)
    (h : ∀ t, Lags (Dictionary.get? ts t) (Dictionary.get? us t)) : ts.dropEmpty = us.dropEmpty := by
  refine Dictionary.ext_of_sorted (sorted_dropEmpty hts) (sorted_dropEmpty hus) fun t => ?_
  obtain hsame | ⟨hnone, hempty⟩ := h t
  · by_cases hempty : Dictionary.get? us t = some .empty
    · rw [get?_dropEmpty_of_empty hus hempty, get?_dropEmpty_of_empty hts (hsame.trans hempty)]
    · have hne : Dictionary.get? ts t ≠ some .empty := hsame ▸ hempty
      rw [get?_dropEmpty_of_ne hus hempty, get?_dropEmpty_of_ne hts hne, hsame]
  · have hne : Dictionary.get? ts t ≠ some .empty := by simp [hnone]
    rw [get?_dropEmpty_of_empty hus hempty, get?_dropEmpty_of_ne hts hne, hnone]

theorem same_dropEmpty (hts : ts.Sorted) (hus : us.Sorted) (h : ts.toTree.same us.toTree = true) :
    ts.dropEmpty.toTree.same us.dropEmpty.toTree = true := by
  refine Value.sameMembers_of_forall (sorted_dropEmpty hts) (sorted_dropEmpty hus) fun t => ?_
  have hslot : Value.SameOption (Dictionary.get? ts t) (Dictionary.get? us t) := Value.sameOption_get? h t
  have hiff : Dictionary.get? ts t = some .empty ↔ Dictionary.get? us t = some .empty :=
    ⟨Value.eq_some_empty_of_sameOption hslot, Value.eq_some_empty_of_sameOption hslot.symm⟩
  by_cases hempty : Dictionary.get? ts t = some .empty
  · rw [get?_dropEmpty_of_empty hts hempty, get?_dropEmpty_of_empty hus (hiff.1 hempty)]
    trivial
  · rw [get?_dropEmpty_of_ne hts hempty, get?_dropEmpty_of_ne hus (mt hiff.2 hempty)]
    exact hslot

end Tables

/-! ## Single writes -/

theorem get?_run_of_ne {ts : Tables} (hts : ts.Sorted) {w : Write} {t : String} (h : t ≠ w.table) :
    Dictionary.get? (w.run ts) t = Dictionary.get? ts t := by
  cases w with
  | setEntry table key value =>
    have hne : table ≠ t := h.symm
    simp [Write.run, Dictionary.get?_insert, hne]
  | deleteEntry table key =>
    have hne : table ≠ t := h.symm
    simp only [Write.run]
    split
    · simp [Dictionary.get?_insert, hne]
    · rfl
  | deleteTable table =>
    have hne : table ≠ t := h.symm
    simp [Write.run, Dictionary.get?_erase hts, hne]
  | setTable table value =>
    have hne : table ≠ t := h.symm
    simp [Write.run, Dictionary.get?_insert, hne]

/-- Entries set one after another in a table. -/
theorem get?_setEntries (table : String) (es : List (String × Value)) (ts : Tables) (t : String) :
    Dictionary.get? (Write.runAll (es.map fun e => .setEntry table e.1 e.2) ts) t
      = if t = table ∧ es ≠ [] then
          some (.object (es.foldl (fun d e => Dictionary.insert d e.1 e.2) (ts.entries table)))
        else Dictionary.get? ts t := by
  induction es generalizing ts with
  | nil => simp [Write.runAll]
  | cons e es ih =>
    have hentries : ((Write.setEntry table e.1 e.2).run ts).entries table
        = Dictionary.insert (ts.entries table) e.1 e.2 := by
      simp [Write.run, Tables.entries, Dictionary.get?_insert, Value.members?]
    have hrest := ih ((Write.setEntry table e.1 e.2).run ts)
    rw [hentries] at hrest
    refine Eq.trans hrest ?_
    by_cases ht : t = table
    · subst ht
      by_cases hes : es = []
      · subst hes
        simp [Write.run, Dictionary.get?_insert]
      · simp [hes]
    · have hne : table ≠ t := Ne.symm ht
      simp [ht, Write.run, Dictionary.get?_insert, hne]

/-- A table that is deleted and set entry by entry is there if it has entries. -/
theorem get?_rewriteEntries {ts : Tables} (hts : ts.Sorted) (table : String) {es : List (String × Value)}
    (hes : Dictionary.Sorted es) (t : String) :
    Dictionary.get? (Write.runAll (.deleteTable table :: es.map fun e => .setEntry table e.1 e.2) ts) t
      = if t = table then if es = [] then none else some (.object es) else Dictionary.get? ts t := by
  have hdeleted : Dictionary.get? ((Write.deleteTable table).run ts) table = none := by
    simp [Write.run, Dictionary.get?_erase hts]
  have hentries : ((Write.deleteTable table).run ts).entries table = [] := by
    simp [Tables.entries, hdeleted]
  have hall : es.foldl (fun d e => Dictionary.insert d e.1 e.2) [] = es := Dictionary.ofList_of_sorted hes
  have hrun := get?_setEntries table es ((Write.deleteTable table).run ts) t
  rw [hentries, hall] at hrun
  refine Eq.trans hrun ?_
  by_cases ht : t = table
  · subst ht
    by_cases hnone : es = []
    · simp [hnone, hdeleted]
    · simp [hnone]
  · have hne : table ≠ t := Ne.symm ht
    simp [ht, Write.run, Dictionary.get?_erase hts, hne]

namespace Store

variable {σ : Type}

/-- A store makes all writes of tables, each in its table, which it may lose if it becomes empty. -/
structure KeepsEntries (store : Store σ) (content : σ → Tables) (Ready : σ → Prop) : Prop where
  /-- The configuration is the content. -/
  config : ∀ s, Ready s → store.config s = .ok (content s).toTree
  /-- The names of the tables ascend. -/
  sorted : ∀ s, Ready s → (content s).Sorted
  /-- A write that leaves a table, or none, is made. -/
  write : ∀ s w, Ready s →
    (∀ v, Dictionary.get? (w.run (content s)) w.table = some v → v.isObject = true ∧ v.WellFormed) →
    ∃ s', store.write w s = (.ok (), s') ∧ Ready s' ∧
      Lags (Dictionary.get? (content s') w.table) (Dictionary.get? (w.run (content s)) w.table) ∧
      ∀ t, t ≠ w.table → Dictionary.get? (content s') t = Dictionary.get? (content s) t

theorem keepsEntries_memory : memory.KeepsEntries id Dictionary.Sorted where
  config _ _ := rfl
  sorted _ hts := hts
  write ts w hts _ := ⟨w.run ts, rfl, sorted_run w hts, .inl rfl, fun _ ht => get?_run_of_ne hts ht⟩

/-- Written entry by entry, an empty table is lost. -/
theorem keepsEntries_entrywise : memory.entrywise.KeepsEntries id Dictionary.Sorted where
  config _ _ := rfl
  sorted _ hts := hts
  write ts w hts htable := by
    cases w with
    | setEntry table key value => exact keepsEntries_memory.write ts (.setEntry table key value) hts htable
    | deleteEntry table key => exact keepsEntries_memory.write ts (.deleteEntry table key) hts htable
    | deleteTable table => exact keepsEntries_memory.write ts (.deleteTable table) hts htable
    | setTable table value =>
      have hvalue : Dictionary.get? ((Write.setTable table value).run ts) table = some value := by
        simp [Write.run, Dictionary.get?_insert]
      obtain ⟨hobject, hwf⟩ := htable value hvalue
      obtain ⟨es, rfl⟩ := Value.eq_object_of_isObject hobject
      have hes : Dictionary.Sorted es := hwf.1
      have hlast := get?_rewriteEntries hts table hes
      refine ⟨Write.runAll (.deleteTable table :: es.map fun e => .setEntry table e.1 e.2) ts, ?_,
        sorted_runAll _ hts, ?_, fun t ht => ?_⟩
      · exact writeAll_memory _ ts
      · show Lags (Dictionary.get? (Write.runAll _ ts) table) (Dictionary.get? (Write.run _ ts) table)
        rw [hlast, hvalue, if_pos rfl]
        by_cases hnone : es = []
        · subst hnone
          exact .inr ⟨rfl, rfl⟩
        · exact .inl (if_neg hnone)
      · have hne : t ≠ table := ht
        exact (hlast t).trans (if_neg hne)

/-- A store that loses empty tables and has no other fault has none at any time. -/
structure OnlyDrops (c : FaultyContent) : Prop where
  failAt : c.failAt = none
  drift : c.drift = none
  dropsEmpty : c.dropsEmpty = true
  sorted : c.tables.Sorted
  ne_empty : ∀ t, Dictionary.get? c.tables t ≠ some .empty

theorem keepsEntries_faulty : faulty.KeepsEntries FaultyContent.tables OnlyDrops where
  config _ _ := rfl
  sorted _ hc := hc.sorted
  write c w hc _ := by
    have hrun : (w.run c.tables).Sorted := sorted_run w hc.sorted
    have haccept : c.accept w = { c with tables := (w.run c.tables).dropEmpty, writes := c.writes + 1 } := by
      simp [FaultyContent.accept, FaultyContent.settle, FaultyContent.driftOn, hc.dropsEmpty, hc.drift]
    refine ⟨c.accept w, by simp [faulty, hc.failAt], ?_, ?_, fun t ht => ?_⟩
    · rw [haccept]
      exact ⟨hc.failAt, hc.drift, hc.dropsEmpty, Tables.sorted_dropEmpty hrun, Tables.dropEmpty_ne_empty hrun⟩
    · rw [haccept]
      exact Tables.lags_dropEmpty hrun w.table
    · have hsame := get?_run_of_ne hc.sorted ht
      have hne : Dictionary.get? (w.run c.tables) t ≠ some .empty := hsame ▸ hc.ne_empty t
      rw [haccept]
      exact (Tables.get?_dropEmpty_of_ne hrun hne).trans hsame

/-! ## Single moves -/

theorem sorted_ground {ts : Tables} (hts : ts.Sorted) (m : Move) {gs : List (String × Value)}
    (h : m.ground (.object ts) = .object gs) : Dictionary.Sorted gs := by
  simp only [Move.ground] at h
  split at h
  · split at h
    · cases h
      exact hts
    · cases h
      exact Dictionary.sorted_insert hts _ _
  · cases h
    exact hts

/-- Where the tables lag, a move finds what it finds in the tree. -/
theorem get?_ground {ts us : Tables} {m : Move} {x : Step} {p : Pointer} (hp : m.path = x :: p)
    (hmeets : m.MeetsTable (.object ts)) (hlags : Lags (Dictionary.get? ts x.name) (Dictionary.get? us x.name))
    (hwhole : p = [] → Dictionary.get? ts x.name = Dictionary.get? us x.name)
    {slot : Option Value} (hslot : m.slotStep (Dictionary.get? us x.name) = some slot) :
    ∃ gs, m.ground (.object ts) = .object gs ∧ Dictionary.get? gs x.name = Dictionary.get? us x.name := by
  cases p with
  | nil => exact ⟨ts, by simp [Move.ground, hp], hwhole rfl⟩
  | cons y p =>
    obtain ⟨gs, hground, hgs, -⟩ := ground_object hp hmeets
    refine ⟨gs, hground, ?_⟩
    rw [hgs]
    obtain hsame | ⟨hnone, hempty⟩ := hlags
    · cases hts : Dictionary.get? ts x.name with
      | none =>
        -- A move below a table that is not there fails in the tree.
        rw [← hsame, hts] at hslot
        simp [Move.slotStep, hp] at hslot
      | some table =>
        obtain ⟨es, rfl⟩ := Value.eq_object_of_isObject (hmeets x y p hp table hts)
        rw [← hsame, hts]
        simp [Tables.entries, hts, Value.members?]
    · rw [hempty]
      simp [Tables.entries, hnone, Value.empty]

section Move

variable {store : Store σ} {content : σ → Tables} {Ready : σ → Prop} {s : σ} {us us' : Tables}
  {m : Move} {x : Step} {p : Pointer}

/-- A move that can be made in the tree is made in a store that lags behind it, unless it is one of a table
that lags itself. Afterwards the table of the move may lag, and no other one has changed. -/
theorem KeepsEntries.makeMove (h : store.KeepsEntries content Ready) (hs : Ready s) (hp : m.path = x :: p)
    (hus : us.Sorted) (hobjects : ∀ t v, Dictionary.get? us t = some v → v.isObject = true)
    (hlags : ∀ t, Lags (Dictionary.get? (content s) t) (Dictionary.get? us t))
    (hwhole : p = [] → Dictionary.get? (content s) x.name = Dictionary.get? us x.name)
    (hstep : m.step (.object us) = .ok (.object us'))
    (htable : ∀ v, Dictionary.get? us' x.name = some v → v.isObject = true ∧ v.WellFormed) :
    ∃ s', store.makeMove m s = (.ok (), s') ∧ Ready s' ∧
      Lags (Dictionary.get? (content s') x.name) (Dictionary.get? us' x.name) ∧
      ∀ t, t ≠ x.name → Dictionary.get? (content s') t = Dictionary.get? (content s) t ∧
        Dictionary.get? us' t = Dictionary.get? us t := by
  have hmeets : m.MeetsTable (.object (content s)) := by
    intro t k q hq table hget
    obtain hsame | ⟨hnone, -⟩ := hlags t.name
    · exact hobjects t.name table (hsame ▸ hget)
    · have hget' : Dictionary.get? (content s) t.name = some table := hget
      rw [hnone] at hget'
      cases hget'
  -- What the move makes of its table in the tree.
  have hresult := Move.toOption_step_object hp us
  rw [hstep, toOption_ok] at hresult
  cases hslot : m.slotStep (Dictionary.get? us x.name) with
  | none =>
    rw [hslot] at hresult
    cases hresult
  | some slot =>
    rw [hslot, Option.map_some, Option.some.injEq, Value.object.injEq] at hresult
    obtain ⟨gs, hgs, hget⟩ := get?_ground hp hmeets (hlags x.name) hwhole hslot
    have hsorted := sorted_ground (h.sorted s hs) m hgs
    have hmade := Move.toOption_step_object hp gs
    rw [hget, hslot, Option.map_some] at hmade
    obtain ⟨e, cause, hfail, -⟩ | ⟨w, hw, hok, hmove⟩ := store.makeMove_table hp (h.config s hs) hmeets
    · rw [hgs] at hfail
      rw [hfail] at hmade
      cases hmade
    · rw [hgs] at hok
      rw [hok, toOption_ok, Option.some.injEq, Value.object.injEq] at hmade
      have hslot' : Dictionary.get? (w.run (content s)) w.table = Dictionary.get? us' x.name := by
        rw [hmade, hresult, hw, Dictionary.get?_put hsorted, Dictionary.get?_put hus]
        simp
      obtain ⟨s', hwrite, hs', hlag, hothers⟩ := h.write s w hs (by rw [hslot']; exact htable)
      rw [hslot', hw] at hlag
      rw [hw] at hothers
      refine ⟨s', by rw [hmove, hwrite]; rfl, hs', hlag, fun t ht => ⟨hothers t ht, ?_⟩⟩
      rw [hresult, Dictionary.get?_put hus, if_neg (Ne.symm ht)]

end Move

/-! ## Moves of a difference -/

section Difference

variable {v w : Tables} (hv : (Value.object v).WellFormed) (hw : (Value.object w).WellFormed)

include hv hw in
/-- Beside the move of a table there is no other one in it. -/
theorem path_eq_of_table {m m' : Move} (hm : m ∈ diff (.object v) (.object w))
    (hm' : m' ∈ diff (.object v) (.object w)) {x y : Step} {p : Pointer} (hp : m.path = x :: p)
    (hp' : m'.path = [y]) (hname : y.name = x.name) : m.path = m'.path := by
  obtain ⟨key, n, hn, rfl⟩ := (mem_diff_object hv.1 hw.1).1 hm
  obtain ⟨key', n', hn', rfl⟩ := (mem_diff_object hv.1 hw.1).1 hm'
  rw [Move.path_under] at hp hp' ⊢
  rw [Move.path_under]
  obtain ⟨rfl, -⟩ := List.cons.inj hp
  obtain ⟨rfl, hroot⟩ := List.cons.inj hp'
  have hkey : key' = key := hname
  subst hkey
  suffices hnil : n.path = [] by rw [hnil, hroot]
  by_contra hbelow
  obtain ⟨as, bs, ha, hb⟩ := exists_members_of_mem_diffSlot hn hbelow
  rw [ha, hb] at hn hn'
  have hwfa := (Value.wellFormed_object_iff.1 hv).2 key' _ ha
  have hwfb := (Value.wellFormed_object_iff.1 hw).2 key' _ hb
  exact hbelow (path_eq_nil_of_root hwfa hwfb hn' hroot hn)

variable (hvs : ∀ t x, Dictionary.get? v t = some x → x.isObject = true)
  (hws : ∀ t x, Dictionary.get? w t = some x → x.isObject = true)

include hvs hws in
/-- Between trees of tables there are trees of tables. -/
theorem isObject_blendObject (taken : Pointer → Bool) (t : String) (x : Value)
    (h : Dictionary.get? (Value.blendObject taken v w) t = some x) : x.isObject = true := by
  rw [Value.get?_blendObject] at h
  cases ha : Dictionary.get? v t with
  | none =>
    cases hb : Dictionary.get? w t with
    | none => simp [ha, hb, Value.blendSlot] at h
    | some b =>
      simp only [ha, hb, Value.blendSlot] at h
      split at h
      · exact hws t x (hb.trans h)
      · cases h
  | some a =>
    obtain ⟨as, rfl⟩ := Value.eq_object_of_isObject (hvs t a ha)
    cases hb : Dictionary.get? w t with
    | none =>
      simp only [ha, hb, Value.blendSlot] at h
      split at h
      · cases h
      · exact hvs t x (ha.trans h)
    | some b =>
      obtain ⟨bs, rfl⟩ := Value.eq_object_of_isObject (hws t b hb)
      simp only [ha, hb, Value.blendSlot, Option.some.injEq] at h
      rw [← h, Value.blend_object]
      rfl

variable {store : Store σ} {content : σ → Tables} {Ready : σ → Prop} (h : store.KeepsEntries content Ready)

include hv hw hvs hws h

/-- A store that lags behind the tree by tables that are not moved as a whole any more makes all moves that are
still to come. -/
theorem KeepsEntries.makeMoves {rest : List Move} (hrest : ∀ m ∈ rest, m ∈ diff (.object v) (.object w))
    (hnodup : (rest.map (·.path)).Nodup) (index : Nat) {s : σ} (hs : Ready s)
    (hlags : ∀ t, Lags (Dictionary.get? (content s) t)
      (Dictionary.get? (Value.blendObject (placesBut rest) v w) t))
    (hwhole : ∀ m ∈ rest, ∀ x, m.path = [x] → Dictionary.get? (content s) x.name
      = Dictionary.get? (Value.blendObject (placesBut rest) v w) x.name) :
    ∃ s', store.makeMoves index rest s = (.ok (), s') ∧ Ready s' ∧
      ∀ t, Lags (Dictionary.get? (content s') t)
        (Dictionary.get? (Value.blendObject (placesBut []) v w) t) := by
  induction rest generalizing index s with
  | nil => exact ⟨s, rfl, hs, hlags⟩
  | cons m rest ih =>
    obtain ⟨hm, hlater⟩ := List.forall_mem_cons.1 hrest
    obtain ⟨hfresh, hnodup⟩ := List.nodup_cons.1 hnodup
    have hpath : m.path ≠ [] := fun hp => by
      cases not_objects_of_mem_diff_root hv hw hm hp
    obtain ⟨x, p, hp⟩ := List.exists_cons_of_ne_nil hpath
    have ht : placesBut (m :: rest) m.path = false := by simp [placesBut]
    have hstep := step_blend hv hw hm ht
    rw [withPlace_placesBut hfresh, Value.blend_object, Value.blend_object] at hstep
    have hafter : (Value.object (Value.blendObject (placesBut rest) v w)).WellFormed := by
      rw [← Value.blend_object]
      exact Value.wellFormed_blend hv hw
    obtain ⟨s₁, hmove, hs₁, hlag, hothers⟩ := h.makeMove hs hp (Value.sorted_blendObject hv.1)
      (isObject_blendObject hvs hws _) hlags
      (fun hnil => hwhole m List.mem_cons_self x (by rw [hp, hnil])) hstep
      (fun y hy => ⟨isObject_blendObject hvs hws _ _ y hy, (Value.wellFormed_object_iff.1 hafter).2 _ y hy⟩)
    have hlags₁ : ∀ t, Lags (Dictionary.get? (content s₁) t)
        (Dictionary.get? (Value.blendObject (placesBut rest) v w) t) := by
      intro t
      by_cases htable : t = x.name
      · rw [htable]
        exact hlag
      · obtain ⟨hheld, hdue⟩ := hothers t htable
        rw [hheld, hdue]
        exact hlags t
    have hwhole₁ : ∀ m' ∈ rest, ∀ y, m'.path = [y] → Dictionary.get? (content s₁) y.name
        = Dictionary.get? (Value.blendObject (placesBut rest) v w) y.name := by
      intro m' hm' y hy
      -- The tables of other moves of whole tables have not been touched.
      have htable : y.name ≠ x.name := by
        intro hname
        have hpaths : m.path = m'.path := path_eq_of_table hv hw hm (hlater m' hm') hp hy hname
        have hmem : m'.path ∈ rest.map (·.path) := List.mem_map_of_mem hm'
        rw [← hpaths] at hmem
        exact hfresh hmem
      obtain ⟨hheld, hdue⟩ := hothers y.name htable
      rw [hheld, hdue]
      exact hwhole m' (List.mem_cons_of_mem m hm') y hy
    obtain ⟨s', hmoves, hs', hlast⟩ := ih hlater hnodup (index + 1) hs₁ hlags₁ hwhole₁
    exact ⟨s', by simp only [Store.makeMoves, hmove, hmoves], hs', hlast⟩

end Difference

/-- All orders of the moves to the target can be made in the store, and what they leave differs from the target
by empty tables at most. -/
def Delivers (store : Store σ) (s : σ) (target : Tables) : Prop :=
  ∃ config, store.config s = .ok config ∧ ∀ moves : List Move, moves.Perm (diff config target.toTree) →
    ∃ s' last, store.apply moves s = (.ok ⟨moves.length, moves.length⟩, s') ∧ store.config s' = .ok last ∧
      (Tables.ofTree last).dropEmpty.toTree.same target.dropEmpty.toTree = true

theorem KeepsEntries.delivers {store : Store σ} {content : σ → Tables} {Ready : σ → Prop}
    (h : store.KeepsEntries content Ready) {s : σ} (hs : Ready s) (hv : (content s).toTree.WellFormed)
    (hvs : ∀ t x, Dictionary.get? (content s) t = some x → x.isObject = true) {target : Tables}
    (hw : target.toTree.WellFormed) (hws : ∀ t x, Dictionary.get? target t = some x → x.isObject = true) :
    store.Delivers s target := by
  refine ⟨(content s).toTree, h.config s hs, fun moves hmoves => ?_⟩
  have hnodup : (moves.map (·.path)).Nodup := ((hmoves.map _).nodup_iff).2 (nodup_places_diff hv hw)
  have hstart : Value.blendObject (placesBut moves) (content s) target = content s := by
    have hblend := blend_placesBut_diff hv hw hmoves
    rw [Tables.toTree, Tables.toTree, Value.blend_object] at hblend
    exact Value.object.inj hblend
  obtain ⟨s', happly, hs', hlags⟩ := h.makeMoves hv hw hvs hws (fun m hm => hmoves.mem_iff.1 hm) hnodup 0 hs
    (fun t => .inl (by rw [hstart])) (fun m _ x _ => by rw [hstart])
  refine ⟨s', (content s').toTree, by simp only [Store.apply, happly], h.config s' hs', ?_⟩
  have hall : Value.object (Value.blendObject (placesBut []) (content s) target)
      = (content s).toTree.settled target.toTree := by
    rw [← Value.blend_object]
    exact blend_congr hv hw fun m _ => by simp [placesBut]
  have hsame : (Value.object (Value.blendObject (placesBut []) (content s) target)).same target.toTree
      = true := by
    rw [hall]
    exact Value.same_settled hv hw
  have hlast : Dictionary.Sorted (Value.blendObject (placesBut []) (content s) target) :=
    Value.sorted_blendObject hv.1
  show (content s').dropEmpty.toTree.same target.dropEmpty.toTree = true
  rw [Tables.dropEmpty_eq_of_lags (h.sorted s' hs') hlast hlags]
  exact Tables.same_dropEmpty hlast hw.1 hsame

/-! ## The stores in memory -/

/-- A store in memory that is opened on tables and then loses those that are empty. -/
def droppingEmpty (ts : Tables) : FaultyContent :=
  FaultyContent.settle { tables := ts, dropsEmpty := true }

theorem onlyDrops_droppingEmpty {ts : Tables} (hts : ts.Sorted) : OnlyDrops (droppingEmpty ts) :=
  ⟨rfl, rfl, rfl, Tables.sorted_dropEmpty hts, Tables.dropEmpty_ne_empty hts⟩

/-- Whether a store in memory keeps empty tables, loses them when tables are written entry by entry, or always
loses them: from tables to tables all moves are made in any order, and the content is the target but for empty
tables. -/
theorem delivers_upToEmpty (current target : Tables) (hcurrent : current.toTree.WellFormed)
    (htarget : target.toTree.WellFormed) (hcs : ∀ table ∈ current, table.2.isObject = true)
    (hts : ∀ table ∈ target, table.2.isObject = true) :
    memory.Delivers current target ∧ memory.entrywise.Delivers current target ∧
      faulty.Delivers (droppingEmpty current) target := by
  have hsorted : current.Sorted := hcurrent.1
  have hcs' : ∀ t x, Dictionary.get? current t = some x → x.isObject = true :=
    fun t x hx => hcs (t, x) (Dictionary.mem_of_get? hx)
  have hts' : ∀ t x, Dictionary.get? target t = some x → x.isObject = true :=
    fun t x hx => hts (t, x) (Dictionary.mem_of_get? hx)
  have hdropped : ∀ t x, Dictionary.get? (droppingEmpty current).tables t = some x →
      Dictionary.get? current t = some x := by
    intro t x hx
    obtain hsame | ⟨hnone, -⟩ := Tables.lags_dropEmpty hsorted t
    · exact hsame ▸ hx
    · have hx' : Dictionary.get? current.dropEmpty t = some x := hx
      rw [hnone] at hx'
      cases hx'
  have hwf : (droppingEmpty current).tables.toTree.WellFormed :=
    Value.wellFormed_object_iff.2 ⟨Tables.sorted_dropEmpty hsorted, fun t x hx =>
      (Value.wellFormed_object_iff.1 hcurrent).2 t x (hdropped t x hx)⟩
  refine ⟨?_, ?_, ?_⟩
  · exact keepsEntries_memory.delivers hsorted hcurrent hcs' htarget hts'
  · exact keepsEntries_entrywise.delivers hsorted hcurrent hcs' htarget hts'
  · exact keepsEntries_faulty.delivers (onlyDrops_droppingEmpty hsorted) hwf
      (fun t x hx => hcs' t x (hdropped t x hx)) htarget hts'

/-- Access lists without entries, and a VLAN. -/
def listsAndVlan : Tables := [("ACL_TABLE", .empty), ("VLAN", .object [("Vlan10", .empty)])]

/-- Ports without entries, and another VLAN. -/
def portsAndVlan : Tables := [("PORT", .empty), ("VLAN", .object [("Vlan20", .empty)])]

theorem delivers_upToEmpty_portsAndVlan :
    listsAndVlan.toTree.WellFormed ∧ portsAndVlan.toTree.WellFormed ∧
      (∀ table ∈ listsAndVlan, table.2.isObject = true) ∧ (∀ table ∈ portsAndVlan, table.2.isObject = true) ∧
      memory.Delivers listsAndVlan portsAndVlan ∧ memory.entrywise.Delivers listsAndVlan portsAndVlan ∧
      faulty.Delivers (droppingEmpty listsAndVlan) portsAndVlan := by
  have hcurrent : listsAndVlan.toTree.WellFormed := by decide
  have htarget : portsAndVlan.toTree.WellFormed := by decide
  have hcs : ∀ table ∈ listsAndVlan, table.2.isObject = true := by decide
  have hts : ∀ table ∈ portsAndVlan, table.2.isObject = true := by decide
  exact ⟨hcurrent, htarget, hcs, hts,
    delivers_upToEmpty listsAndVlan portsAndVlan hcurrent htarget hcs hts⟩

end Store

end ConfigUpdate
