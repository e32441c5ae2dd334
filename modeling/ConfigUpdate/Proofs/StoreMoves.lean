import ConfigUpdate.Proofs.SliceStep

/-!
# Moves in any store

A move below the root is made by one write, whatever the store does with it: `Store.makeMove_below`. Where
the store holds tables, the write leaves what the move makes of the whole tree (`Store.makeMove_table`). A
store that is a part of a larger content makes moves there as it does alone: `Store.Within.apply_eq`.
-/

namespace ConfigUpdate

/-- The table in which a write is made. -/
def Write.table : Write → String
  | setEntry table _ _ => table
  | deleteEntry table _ => table
  | deleteTable table => table
  | setTable table _ => table

/-- A move below the root is written back by one write, in its table. -/
theorem Slice.exists_write (s : Step) (p : Pointer) (before after : Value) :
    ∃ w, (Slice.ofPath (s :: p)).writes before after = [w] ∧ w.table = s.name := by
  cases p with
  | nil =>
    simp only [Slice.ofPath, Slice.writes]
    split
    · exact ⟨_, rfl, rfl⟩
    · exact ⟨_, rfl, rfl⟩
  | cons s' p =>
    simp only [Slice.ofPath, Slice.writes]
    split
    · exact ⟨_, rfl, rfl⟩
    · exact ⟨_, rfl, rfl⟩

theorem Slice.exists_writes_eq (s : Step) (p : Pointer) (before after : Value) :
    ∃ w, (Slice.ofPath (s :: p)).writes before after = [w] := by
  obtain ⟨w, hw, -⟩ := exists_write s p before after
  exact ⟨w, hw⟩

namespace Store

variable {σ τ : Type}

/-! ## One write -/

/-- The outcome of a move that is made by one write. -/
def ofWrite : Except StoreError Unit × σ → Except MoveFault Unit × σ
  | (.ok (), c) => (.ok (), c)
  | (.error e, c) => (.error (.store e), c)

theorem writeAll_singleton (store : Store σ) (w : Write) (c : σ) :
    store.writeAll [w] c = store.write w c := by
  simp only [writeAll]
  rcases store.write w c with ⟨_ | _, c'⟩ <;> rfl

/-- A move below the root changes nothing or is one write. -/
theorem makeMove_below (store : Store σ) {m : Move} {s : Step} {p : Pointer} (hp : m.path = s :: p)
    (c : σ) :
    (∃ fault, store.makeMove m c = (.error fault, c)) ∨
      ∃ w, store.makeMove m c = ofWrite (store.write w c) := by
  unfold makeMove
  cases store.config c with
  | error e => exact .inl ⟨_, rfl⟩
  | ok config =>
    cases hstep : m.step ((Slice.ofPath m.path).view config) with
    | error e =>
      refine .inl ⟨.drift e, ?_⟩
      simp only [hstep]
    | ok after =>
      obtain ⟨w, hw⟩ := Slice.exists_writes_eq s p ((Slice.ofPath m.path).view config) after
      rw [← hp] at hw
      refine .inr ⟨w, ?_⟩
      simp only [hstep, hw, writeAll_singleton]
      rcases store.write w c with ⟨_ | _, c'⟩ <;> rfl

/-- In a store that holds tables, a move below the root fails where it fails in the whole tree, and
otherwise writes into its table what it makes of the whole tree. -/
theorem makeMove_table (store : Store σ) {m : Move} {s : Step} {p : Pointer} (hp : m.path = s :: p)
    {c : σ} {ts : Tables} (hconfig : store.config c = .ok ts.toTree)
    (hmeets : m.MeetsTable (.object ts)) :
    (∃ e cause, m.step (m.ground (.object ts)) = .error e ∧
        store.makeMove m c = (.error (.drift cause), c)) ∨
      ∃ w, w.table = s.name ∧ m.step (m.ground (.object ts)) = .ok (.object (w.run ts)) ∧
        store.makeMove m c = ofWrite (store.write w c) := by
  have hslice := step_slice hp hmeets
  simp only [makeMove, hconfig]
  cases hview : m.step ((Slice.ofPath m.path).view ts.toTree) with
  | error cause =>
    rw [hview] at hslice
    cases hwhole : m.step (m.ground (.object ts)) with
    | error e => exact .inl ⟨e, cause, rfl, rfl⟩
    | ok after =>
      rw [hwhole] at hslice
      cases hslice
  | ok after =>
    obtain ⟨w, hw, htable⟩ := Slice.exists_write s p ((Slice.ofPath m.path).view ts.toTree) after
    rw [← hp] at hw
    rw [hview, toOption_ok, Option.map_some, hw] at hslice
    refine .inr ⟨w, htable, toOption_eq_some_iff.1 hslice.symm, ?_⟩
    simp only [hw, writeAll_singleton]
    rcases store.write w c with ⟨_ | _, c'⟩ <;> rfl

theorem makeMove_tables (store : Store σ) {m : Move} {s : Step} {p : Pointer} (hp : m.path = s :: p)
    {c : σ} {ts : Tables} (hconfig : store.config c = .ok ts.toTree)
    (hmeets : m.MeetsTable (.object ts)) :
    (∃ e cause, m.step (m.ground (.object ts)) = .error e ∧
        store.makeMove m c = (.error (.drift cause), c)) ∨
      ∃ w, m.step (m.ground (.object ts)) = .ok (.object (w.run ts)) ∧
        store.makeMove m c = ofWrite (store.write w c) := by
  obtain hfault | ⟨w, -, hstep, hmove⟩ := store.makeMove_table hp hconfig hmeets
  · exact .inl hfault
  · exact .inr ⟨w, hstep, hmove⟩

/-! ## A store in a larger content -/

/-- One store does in a larger content what another one does alone. -/
structure Within (outer : Store τ) (inner : Store σ) (put : σ → τ) : Prop where
  /-- The configuration is that of the inner store. -/
  config : ∀ c, outer.config (put c) = inner.config c
  /-- A write is one of the inner store. -/
  write : ∀ w c, outer.write w (put c) = ((inner.write w c).1, put (inner.write w c).2)

namespace Within

variable {outer : Store τ} {inner : Store σ} {put : σ → τ}

theorem writeAll_eq (h : Within outer inner put) (ws : List Write) (c : σ) :
    outer.writeAll ws (put c) = ((inner.writeAll ws c).1, put (inner.writeAll ws c).2) := by
  induction ws generalizing c with
  | nil => rfl
  | cons w ws ih =>
    simp only [writeAll, h.write]
    rcases inner.write w c with ⟨_ | _, c'⟩
    · rfl
    · exact ih c'

theorem makeMove_eq (h : Within outer inner put) (m : Move) (c : σ) :
    outer.makeMove m (put c) = ((inner.makeMove m c).1, put (inner.makeMove m c).2) := by
  simp only [makeMove, h.config]
  cases inner.config c with
  | error e => rfl
  | ok config =>
    cases hstep : m.step ((Slice.ofPath m.path).view config) with
    | error e => simp only [hstep]
    | ok after =>
      simp only [hstep, h.writeAll_eq]
      rcases inner.writeAll _ c with ⟨_ | _, c'⟩ <;> rfl

theorem makeMoves_eq (h : Within outer inner put) (index : Nat) (moves : List Move) (c : σ) :
    outer.makeMoves index moves (put c)
      = ((inner.makeMoves index moves c).1, put (inner.makeMoves index moves c).2) := by
  induction moves generalizing index c with
  | nil => rfl
  | cons m moves ih =>
    simp only [makeMoves, h.makeMove_eq]
    rcases inner.makeMove m c with ⟨_ | _, c'⟩
    · rfl
    · exact ih (index + 1) c'

theorem apply_eq (h : Within outer inner put) (moves : List Move) (c : σ) :
    outer.apply moves (put c) = ((inner.apply moves c).1, put (inner.apply moves c).2) := by
  simp only [Store.apply, h.makeMoves_eq]
  rcases inner.makeMoves 0 moves c with ⟨_ | _, c'⟩ <;> rfl

end Within

end Store

end ConfigUpdate
