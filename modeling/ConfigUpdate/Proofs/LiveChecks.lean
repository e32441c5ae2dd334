import ConfigUpdate.Proofs.SliceStep

/-!
# What a check of a slice misses

A move is checked against the slice that it addresses and not against the configuration. Where the slice is true
to the configuration the check misses nothing. It is not where another writer has put something else in the place
of a table: an entry of that reads as missing, so the addition of an entry passes, and the table that it makes
displaces what was there. This is all that is missed: `Store.apply_unnoticed_iff`.
-/

namespace ConfigUpdate

/-- The move adds an entry where something stands in the place of the table that does not allow it: a leaf, or
an array that has such an item. -/
def Move.Displaces (m : Move) (ts : Tables) : Prop :=
  m.kind = .add ∧ m.precondition = .absent ∧ ∃ s s' foreign, m.path = [s, s'] ∧
    Dictionary.get? ts s.name = some foreign ∧ foreign.isObject = false ∧
      (foreign.isScalar = true ∨ foreign.hasNode [s'] = true)

section Slices

variable {m : Move} {ts : Tables} {s s' : Step} {p : Pointer} {foreign : Value}

theorem check_eq_ok_iff_toOption {tree : Value} : m.check tree = .ok () ↔ (m.check tree).toOption = some () :=
  toOption_eq_some_iff.symm

/-- Where the path leads below a table or a missing one, a move that passes in its slice passes in the whole
configuration. -/
theorem check_ground_of_step {after : Value} (hmeets : m.MeetsTable (.object ts))
    (h : m.step ((Slice.ofPath m.path).view ts.toTree) = .ok after) :
    m.check (m.ground (.object ts)) = .ok () := by
  cases hp : m.path with
  | nil =>
    have hground : m.ground (.object ts) = .object ts := by simp [Move.ground, hp]
    have hview : m.step (.object ts) = .ok after := by
      rw [hp] at h
      exact h
    rw [hground]
    exact (Move.step_eq_ok_iff.1 hview).1
  | cons s p =>
    have hslice := step_slice hp hmeets
    rw [h] at hslice
    exact (Move.step_eq_ok_iff.1 (toOption_eq_some_iff.1 hslice.symm)).1

/-- Of what is no table, no entry is read. -/
theorem view_foreign (hforeign : Dictionary.get? ts s.name = some foreign)
    (hkind : foreign.isObject = false) :
    (Slice.entry s.name s'.name).view ts.toTree = .object [(s.name, .empty)] := by
  have hentry : ts.entryAt? s.name s'.name = none := by
    cases foreign with
    | object ms => cases hkind
    | scalar v => simp [Tables.entryAt?, hforeign, Value.get?]
    | array xs => simp [Tables.entryAt?, hforeign, Value.get?]
  rw [view_entry, hentry]
  rfl

/-- A move whose path leads below what is no table passes in its slice only if it adds an entry. -/
theorem step_foreign_iff (hp : m.path = s :: s' :: p) (hforeign : Dictionary.get? ts s.name = some foreign)
    (hkind : foreign.isObject = false) {after : Value} :
    m.step ((Slice.ofPath m.path).view ts.toTree) = .ok after ↔
      p = [] ∧ m.kind = .add ∧ m.precondition = .absent ∧
        after = .object [(s.name, .object [(s'.name, m.value.getD .empty)])] := by
  have hview : (Slice.ofPath m.path).view ts.toTree = .object [(s.name, .object [])] := by
    rw [hp]
    exact view_foreign hforeign hkind
  have htable : Dictionary.get? [(s.name, Value.object [])] s.name = some (.object []) := if_pos rfl
  have hbelow : m.below.path = s' :: p := by simp [Move.below, hp]
  rw [← toOption_eq_some_iff, hview, step_below_table hp htable, Dictionary.get?_nil]
  cases p with
  | cons s'' p => simp [Move.slotStep, hbelow]
  | nil =>
    simp only [Move.slotStep, hbelow]
    cases hpre : m.precondition <;> cases hk : m.kind <;>
      simp [Move.expects, Move.change, Move.below, hpre, hk, Dictionary.insert, Dictionary.put, eq_comm]

/-- In the whole configuration an entry may be added to an array that has no such item, and to no leaf. -/
theorem check_ground_foreign_iff (hp : m.path = [s, s']) (hpre : m.precondition = .absent)
    (hforeign : Dictionary.get? ts s.name = some foreign) :
    m.check (m.ground (.object ts)) = .ok () ↔
      ¬ (foreign.isScalar = true ∨ foreign.hasNode [s'] = true) := by
  have hground : m.ground (.object ts) = .object ts := by
    simp [Move.ground, hp, Dictionary.contains, hforeign]
  have hbelow : m.below.path = [s'] := by simp [Move.below, hp]
  have hroot : (foreign.resolve []).toOption = some foreign := rfl
  rw [hground, check_eq_ok_iff_toOption, Move.toOption_check_object hp, hforeign, Option.bind_some,
    Move.toOption_check_absent (m := m.below) hpre (by simp [hbelow]), hbelow,
    Value.hasNode_eq_isSome]
  show ((foreign.resolve []).toOption.bind _) = some () ↔ _
  rw [hroot, Option.bind_some]
  cases foreign.isScalar <;> cases (foreign.resolve [s']).toOption.isSome <;> simp

end Slices

namespace Store

variable {m : Move} {ts : Tables}

theorem exists_apply_single_iff : (∃ report, (memory.apply [m] ts).1 = .ok report) ↔
    ∃ after, m.step ((Slice.ofPath m.path).view ts.toTree) = .ok after := by
  simp only [Store.apply, makeMoves, makeMove_memory]
  cases m.step ((Slice.ofPath m.path).view ts.toTree) <;> simp

/-- A single move is made although it does not find in the whole configuration what it expects exactly if it
adds an entry to what is no table and does not allow it. An empty table is taken to be there if there is none
below which the path of the move leads. What was in the place of the table is gone then. -/
theorem apply_unnoticed_iff (m : Move) (ts : Tables) :
    ((∃ report, (memory.apply [m] ts).1 = .ok report) ∧ m.check (m.ground (.object ts)) ≠ .ok () ↔
        m.Displaces ts) ∧
      ∀ s s', m.Displaces ts → m.path = [s, s'] →
        (memory.apply [m] ts).2
          = Dictionary.insert ts s.name (.object [(s'.name, m.value.getD .empty)]) := by
  constructor
  · rw [exists_apply_single_iff]
    constructor
    · rintro ⟨⟨after, hafter⟩, hcheck⟩
      -- The check misses something, so the path leads below what is there and no table.
      have hfits : ¬ m.MeetsTable (.object ts) := fun hmeets => hcheck (check_ground_of_step hmeets hafter)
      unfold Move.MeetsTable at hfits
      push Not at hfits
      obtain ⟨s, s', p, hp, foreign, hforeign, hkind⟩ := hfits
      have hobject : foreign.isObject = false := by simpa using hkind
      obtain ⟨rfl, hadd, hpre, -⟩ := (step_foreign_iff hp hforeign hobject).1 hafter
      have hrefused := mt (check_ground_foreign_iff hp hpre hforeign).2 hcheck
      exact ⟨hadd, hpre, s, s', foreign, hp, hforeign, hobject, not_not.1 hrefused⟩
    · rintro ⟨hadd, hpre, s, s', foreign, hp, hforeign, hobject, hrefused⟩
      refine ⟨⟨_, (step_foreign_iff hp hforeign hobject).2 ⟨rfl, hadd, hpre, rfl⟩⟩, fun hcheck => ?_⟩
      exact (check_ground_foreign_iff hp hpre hforeign).1 hcheck hrefused
  · rintro s s' ⟨hadd, hpre, t, t', foreign, hp, hforeign, hobject, -⟩ hp'
    obtain ⟨rfl, rfl⟩ : t = s ∧ t' = s' := by simpa [hp] using hp'
    have hstep := (step_foreign_iff hp hforeign hobject).2 ⟨rfl, hadd, hpre, rfl⟩
    have hentries : ts.entries t.name = [] := by
      cases foreign with
      | object ms => cases hobject
      | scalar v => simp [Tables.entries, hforeign, Value.members?]
      | array xs => simp [Tables.entries, hforeign, Value.members?]
    simp only [Store.apply, makeMoves, makeMove_memory, hstep]
    simp only [hp, Slice.ofPath, runAll_writes_entry]
    simp [Tables.ofTree, Value.members?, Tables.entryAt?, Dictionary.get?, Value.get?, Write.putEntry,
      Write.run, hentries, Dictionary.insert]

/-- A table that another writer has replaced by a list. -/
def listed : Tables :=
  [("VLAN", .array [.scalar (.string "Vlan10")])]

/-- The addition of an entry to the table, under the name `0`. -/
def firstVlan : Move :=
  .add [.key "VLAN", .index 0] .empty

/-- The addition is made, and the list is gone, although there is an item at its place. -/
theorem exists_displaced :
    ¬ ∀ (ts ts' : Tables) (m : Move) (report : CommitReport), memory.apply [m] ts = (.ok report, ts') →
      m.check (m.ground (.object ts)) = .ok () := by
  intro hall
  have happly : memory.apply [firstVlan] listed
      = (.ok ⟨1, 1⟩, [("VLAN", .object [("0", .empty)])]) := by
    rfl
  have hrefused : (firstVlan.check (firstVlan.ground (.object listed))).toOption = none := by
    rfl
  rw [hall _ _ _ _ happly] at hrefused
  cases hrefused

end Store

end ConfigUpdate
