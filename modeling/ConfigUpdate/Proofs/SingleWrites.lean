import ConfigUpdate.Proofs.ZeroEffect

/-!
# Moves that take several writes

A store whose single writes are atomic may still be left in the middle of a move: the whole configuration is
replaced table by table, and a store that knows no write of a table writes it entry by entry. An error counts
moves and not writes. So an error that counts none says that nothing has changed only if the first move is one
write; otherwise the store is left as the writes before the one that failed leave it (`Store.apply_zero_effect`,
`Store.exists_partial_move`).
-/

namespace ConfigUpdate

/-- The single writes that a write takes, if tables are written whole or entry by entry; `none` if it takes a
value for a table that is none. -/
def Write.singles? (whole : Bool) (w : Write) : Option (List Write) :=
  if whole then some [w] else w.entrywise?

/-- The single writes that a list of writes takes. -/
def Write.singles (whole : Bool) (ws : List Write) : List Write :=
  ws.flatMap fun w => (w.singles? whole).getD []

namespace Store

variable {σ : Type} {store : Store σ} {whole : Bool} {s s' : σ}

/-- A write succeeds or changes nothing. -/
def Atomic (store : Store σ) : Prop :=
  ∀ w s e s', store.write w s = (.error e, s') → s' = s

/-- The store with its own write of a table, or with one that goes entry by entry. -/
def keeping (store : Store σ) (whole : Bool) : Store σ :=
  if whole then store else store.entrywise

theorem config_keeping (store : Store σ) (whole : Bool) : (store.keeping whole).config = store.config := by
  cases whole <;> rfl

theorem write_keeping {w : Write} {ws : List Write} (h : w.singles? whole = some ws) (s : σ) :
    (store.keeping whole).write w s = store.writeAll ws s := by
  cases whole with
  | true =>
    cases h
    exact (writeAll_singleton store w s).symm
  | false =>
    cases w with
    | setTable table value =>
      have hws : Write.entrywise? (.setTable table value) = some ws := h
      simp only [keeping, entrywise, hws, Bool.false_eq_true, if_false]
    | setEntry table key value =>
      cases h
      exact (writeAll_singleton store _ s).symm
    | deleteEntry table key =>
      cases h
      exact (writeAll_singleton store _ s).symm
    | deleteTable table =>
      cases h
      exact (writeAll_singleton store _ s).symm

theorem write_keeping_none (store : Store σ) {w : Write} (h : w.singles? whole = none) (s : σ) :
    ∃ e, (store.keeping whole).write w s = (.error e, s) := by
  cases whole with
  | true => cases h
  | false =>
    cases w with
    | setTable table value =>
      have hws : Write.entrywise? (.setTable table value) = none := h
      refine ⟨noTable table, ?_⟩
      simp only [keeping, entrywise, hws, Bool.false_eq_true, if_false]
    | setEntry table key value => cases h
    | deleteEntry table key => cases h
    | deleteTable table => cases h

/-! ## How far a list of writes gets -/

/-- A list of writes stops at its first write, or goes on with the others. -/
theorem writeAll_cons_cases {w : Write} {ws : List Write} {r : Except StoreError Unit}
    (h : store.writeAll (w :: ws) s = (r, s')) :
    (∃ e, store.write w s = (.error e, s')) ∨
      ∃ s₁, store.write w s = (.ok (), s₁) ∧ store.writeAll ws s₁ = (r, s') := by
  simp only [writeAll] at h
  split at h
  · rename_i s₁ hw
    exact .inr ⟨s₁, hw, h⟩
  · rename_i e s₁ hw
    cases h
    exact .inl ⟨e, hw⟩

theorem writeAll_append {ws : List Write} (h : store.writeAll ws s = (.ok (), s')) (rest : List Write) :
    store.writeAll (ws ++ rest) s = store.writeAll rest s' := by
  induction ws generalizing s with
  | nil =>
    cases h
    rfl
  | cons w ws ih =>
    simp only [writeAll, List.cons_append] at h ⊢
    split at h
    · exact ih h
    · cases h

/-- Writes that are atomic get as far as some of them, the first ones, get without a fault. -/
theorem exists_made_of_writeAll (hatomic : store.Atomic) (ws : List Write) {r : Except StoreError Unit}
    (h : store.writeAll ws s = (r, s')) :
    ∃ made, made <+: ws ∧ store.writeAll made s = (.ok (), s') := by
  induction ws generalizing s with
  | nil =>
    cases h
    exact ⟨[], List.prefix_rfl, rfl⟩
  | cons w ws ih =>
    obtain ⟨e, hw⟩ | ⟨s₁, hw, hws⟩ := writeAll_cons_cases h
    · obtain rfl : s' = s := hatomic w s e s' hw
      exact ⟨[], List.nil_prefix, rfl⟩
    · obtain ⟨made, hmade, hrun⟩ := ih hws
      have hfirst : store.writeAll [w] s = (.ok (), s₁) := by rw [writeAll_singleton, hw]
      refine ⟨w :: made, List.cons_prefix_cons.2 ⟨rfl, hmade⟩, ?_⟩
      rw [← hrun]
      exact writeAll_append hfirst made

/-- The same for writes of which some take several single ones. -/
theorem exists_made_of_keeping (hatomic : store.Atomic) (ws : List Write) {r : Except StoreError Unit}
    (h : (store.keeping whole).writeAll ws s = (r, s')) :
    ∃ made, made <+: Write.singles whole ws ∧ store.writeAll made s = (.ok (), s') := by
  induction ws generalizing s with
  | nil =>
    cases h
    exact ⟨[], List.prefix_rfl, rfl⟩
  | cons w ws ih =>
    simp only [Write.singles, List.flatMap_cons]
    obtain ⟨e, hw⟩ | ⟨s₁, hw, hws⟩ := writeAll_cons_cases h
    · -- The write fails, in one of its parts if it has any, so no later one is tried.
      cases hparts : w.singles? whole with
      | none =>
        obtain ⟨e', hw'⟩ := write_keeping_none store hparts s
        rw [hw'] at hw
        cases hw
        exact ⟨[], List.nil_prefix, rfl⟩
      | some parts =>
        rw [write_keeping hparts] at hw
        obtain ⟨made, hmade, hrun⟩ := exists_made_of_writeAll hatomic parts hw
        exact ⟨made, hmade.trans (List.prefix_append _ _), hrun⟩
    · cases hparts : w.singles? whole with
      | none =>
        obtain ⟨e', hw'⟩ := write_keeping_none store hparts s
        rw [hw'] at hw
        cases hw
      | some parts =>
        rw [write_keeping hparts] at hw
        obtain ⟨made, hmade, hrun⟩ := ih hws
        refine ⟨parts ++ made, (List.prefix_append_right_inj parts).2 hmade, ?_⟩
        rw [writeAll_append hw]
        exact hrun

/-! ## How far a move gets -/

/-- A move fails before it writes, or in its writes. -/
theorem makeMove_error_cases {m : Move} {fault : MoveFault} (h : store.makeMove m s = (.error fault, s')) :
    s' = s ∨ ∃ config after e, store.config s = .ok config ∧
      m.step ((Slice.ofPath m.path).view config) = .ok after ∧
      store.writeAll ((Slice.ofPath m.path).writes ((Slice.ofPath m.path).view config) after) s
        = (.error e, s') := by
  simp only [makeMove] at h
  split at h
  · cases h
    exact .inl rfl
  · rename_i config hconfig
    split at h
    · cases h
      exact .inl rfl
    · rename_i after hstep
      split at h
      · cases h
      · rename_i e s₁ hwrites
        cases h
        exact .inr ⟨config, after, e, hconfig, hstep, hwrites⟩

/-- A move below a table is one single write, and so is one of a table that is written whole. -/
theorem singles_writes {m : Move} {t : Step} {p : Pointer} (hp : m.path = t :: p)
    (hone : p ≠ [] ∨ whole = true) (before after : Value) :
    ∃ w, (Slice.ofPath m.path).writes before after = [w] ∧ w.singles? whole = some [w] := by
  cases whole with
  | true =>
    obtain ⟨w, hw⟩ := Slice.exists_writes_eq t p before after
    exact ⟨w, by rw [hp, hw], rfl⟩
  | false =>
    obtain ⟨k, p, rfl⟩ := List.exists_cons_of_ne_nil (hone.resolve_right Bool.false_ne_true)
    rw [hp]
    simp only [Slice.ofPath, Slice.writes]
    cases (Tables.ofTree after).entryAt? t.name k.name with
    | none => exact ⟨_, rfl, rfl⟩
    | some v => exact ⟨_, rfl, rfl⟩

/-- A move that fails and is one single write has changed nothing. -/
theorem makeMove_unchanged (hatomic : store.Atomic) {m : Move} {t : Step} {p : Pointer} (hp : m.path = t :: p)
    (hone : p ≠ [] ∨ whole = true) {fault : MoveFault}
    (h : (store.keeping whole).makeMove m s = (.error fault, s')) : s' = s := by
  obtain hsame | ⟨config, after, e, -, -, hwrites⟩ := makeMove_error_cases h
  · exact hsame
  · obtain ⟨w, hw, hsingles⟩ := singles_writes hp hone ((Slice.ofPath m.path).view config) after
    rw [hw, writeAll_singleton, write_keeping hsingles, writeAll_singleton] at hwrites
    exact hatomic w s e s' hwrites

/-- A move that fails has changed nothing, or has got as far as some of its single writes. -/
theorem exists_made_of_makeMove (hatomic : store.Atomic) {m : Move} {fault : MoveFault}
    (h : (store.keeping whole).makeMove m s = (.error fault, s')) :
    s' = s ∨ ∃ config after made, store.config s = .ok config ∧
      m.step ((Slice.ofPath m.path).view config) = .ok after ∧ made ≠ [] ∧
      made <+: Write.singles whole
        ((Slice.ofPath m.path).writes ((Slice.ofPath m.path).view config) after) ∧
      store.writeAll made s = (.ok (), s') := by
  obtain hsame | ⟨config, after, e, hconfig, hstep, hwrites⟩ := makeMove_error_cases h
  · exact .inl hsame
  · obtain ⟨made, hmade, hrun⟩ := exists_made_of_keeping hatomic _ hwrites
    by_cases hnone : made = []
    · subst hnone
      cases hrun
      exact .inl rfl
    · rw [config_keeping] at hconfig
      exact .inr ⟨config, after, made, hconfig, hstep, hnone, hmade, hrun⟩

/-! ## Plans -/

/-- A plan fails in its first move, or in the others. -/
theorem makeMoves_error_cases {index : Nat} {m : Move} {ms : List Move} {e : UpdateError}
    (h : store.makeMoves index (m :: ms) s = (.error e, s')) :
    (∃ fault, store.makeMove m s = (.error fault, s') ∧ e = fault.toError index m.path) ∨
      ∃ s₁, store.makeMove m s = (.ok (), s₁) ∧ store.makeMoves (index + 1) ms s₁ = (.error e, s') := by
  simp only [makeMoves] at h
  split at h
  · rename_i s₁ hmove
    exact .inr ⟨s₁, hmove, h⟩
  · rename_i fault s₁ hmove
    cases h
    exact .inl ⟨fault, hmove, rfl⟩

/-- The error of a plan counts at least the moves before its first one. -/
theorem le_committed_makeMoves (store : Store σ) (index : Nat) (moves : List Move) {e : UpdateError}
    (h : store.makeMoves index moves s = (.error e, s')) : index ≤ e.committed := by
  induction moves generalizing index s with
  | nil => cases h
  | cons m ms ih =>
    obtain ⟨fault, -, rfl⟩ | ⟨s₁, -, hrest⟩ := makeMoves_error_cases h
    · rw [committed_toError]
    · exact Nat.le_of_succ_le (ih (index + 1) hrest)

theorem apply_eq_error_iff {moves : List Move} {e : UpdateError} :
    store.apply moves s = (.error e, s') ↔ store.makeMoves 0 moves s = (.error e, s') := by
  unfold apply
  rcases store.makeMoves 0 moves s with ⟨_ | _, s₁⟩ <;> simp

/-- A plan that fails with an error that promises no effect has failed in its first move. Nothing has changed
then, unless the move replaces the whole configuration, or a table that is written entry by entry: of such a
move some single writes may have been made. -/
theorem apply_zero_effect (store : Store σ) (hatomic : store.Atomic) (whole : Bool) (moves : List Move)
    (s s' : σ) (e : UpdateError) (h : (store.keeping whole).apply moves s = (.error e, s'))
    (hzero : e.isZeroEffect = true) :
    s' = s ∨ ∃ m rest config after made, moves = m :: rest ∧
      (m.path = [] ∨ whole = false ∧ ∃ t, m.path = [t]) ∧
      store.config s = .ok config ∧ m.step ((Slice.ofPath m.path).view config) = .ok after ∧
      made ≠ [] ∧
      made <+: Write.singles whole
        ((Slice.ofPath m.path).writes ((Slice.ofPath m.path).view config) after) ∧
      store.writeAll made s = (.ok (), s') := by
  have hcommitted : e.committed = 0 := by simpa [UpdateError.isZeroEffect] using hzero
  rw [apply_eq_error_iff] at h
  cases moves with
  | nil => cases h
  | cons m ms =>
    obtain ⟨fault, hmove, -⟩ | ⟨s₁, -, hrest⟩ := makeMoves_error_cases h
    · obtain hsame | ⟨config, after, made, hconfig, hstep, hmade⟩ := exists_made_of_makeMove hatomic hmove
      · exact .inl hsame
      · rcases hp : m.path with _ | ⟨t, _ | ⟨k, p⟩⟩
        · exact .inr ⟨m, ms, config, after, made, rfl, .inl hp, hconfig, hstep, hmade⟩
        · cases whole with
          | true => exact .inl (makeMove_unchanged hatomic hp (.inr rfl) hmove)
          | false => exact .inr ⟨m, ms, config, after, made, rfl, .inr ⟨rfl, t, hp⟩, hconfig, hstep, hmade⟩
        · exact .inl (makeMove_unchanged hatomic hp (.inl (List.cons_ne_nil k p)) hmove)
    · have hle := le_committed_makeMoves _ _ ms hrest
      omega

/-! ## Stores that fail in the middle of a move -/

theorem atomic_faulty : Store.faulty.Atomic := by
  intro w c e c' h
  simp only [faulty] at h
  split at h
  · cases h
    rfl
  · cases h

/-- A store with a table of access lists, which refuses its second write. -/
def secondRefused : FaultyContent where
  tables := [("ACL_TABLE", .object [("DATAACL", .empty)])]
  failAt := some 1

/-- The store without its table. -/
def tableDeleted : FaultyContent :=
  { secondRefused with tables := [], writes := 1 }

/-- The replacement of the whole configuration by one with VLANs. -/
def newConfig : Move :=
  .replace [] secondRefused.tables.toTree (.object [("VLAN", .object [("Vlan10", .empty)])])

/-- The old table is deleted when the write of the new one is refused, so the error promises no effect, and the
configuration is empty. -/
theorem exists_partial_move :
    ¬ ∀ (σ : Type) (store : Store σ) (whole : Bool) (moves : List Move) (s s' : σ) (e : UpdateError),
      store.Atomic → (store.keeping whole).apply moves s = (.error e, s') → e.isZeroEffect = true →
      store.config s' = store.config s := by
  intro hall
  have happly : (faulty.keeping true).apply [newConfig] secondRefused
      = (.error (.applyFailed 0 "" 0 .injected), tableDeleted) := rfl
  have hsame := hall FaultyContent faulty true [newConfig] secondRefused tableDeleted _ atomic_faulty
    happly rfl
  simp [faulty, secondRefused, tableDeleted, Tables.toTree] at hsame

/-- The replacement of the access lists by other ones. -/
def newLists : Move :=
  .replace (.ofNames ["ACL_TABLE"]) (.object [("DATAACL", .empty)])
    (.object [("EVERFLOW", .empty), ("SNMP_ACL", .empty)])

/-- A table is deleted when the write of its first entry is refused. -/
theorem apply_zero_effect_newLists :
    faulty.Atomic ∧
      (faulty.keeping false).apply [newLists] secondRefused
        = (.error (.applyFailed 0 "/ACL_TABLE" 0 .injected), tableDeleted) ∧
      UpdateError.isZeroEffect (.applyFailed 0 "/ACL_TABLE" 0 .injected) = true ∧
      (tableDeleted = secondRefused ∨ ∃ m rest config after made, [newLists] = m :: rest ∧
        (m.path = [] ∨ false = false ∧ ∃ t, m.path = [t]) ∧
        faulty.config secondRefused = .ok config ∧
        m.step ((Slice.ofPath m.path).view config) = .ok after ∧ made ≠ [] ∧
        made <+: Write.singles false
          ((Slice.ofPath m.path).writes ((Slice.ofPath m.path).view config) after) ∧
        faulty.writeAll made secondRefused = (.ok (), tableDeleted)) := by
  have happly : (faulty.keeping false).apply [newLists] secondRefused
      = (.error (.applyFailed 0 "/ACL_TABLE" 0 .injected), tableDeleted) := rfl
  exact ⟨atomic_faulty, happly, rfl,
    apply_zero_effect faulty atomic_faulty false [newLists] secondRefused tableDeleted _ happly rfl⟩

end Store

end ConfigUpdate
