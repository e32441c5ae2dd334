import ConfigUpdate.Proofs.ObjectStep
import ConfigUpdate.Scope.Split

/-!
# The parts of a target

A target gives configurations for scopes. Where no scope is named twice, splitting it finds exactly these:
`Scope.get?_splitConfig`.
-/

namespace ConfigUpdate

namespace Scope

instance : IsStrictTotalOrder Scope (· < ·) where
  trichotomous a b := by
    cases a with
    | host => cases b <;> simp [LT.lt, lt]
    | asic i =>
      cases b with
      | host => simp [LT.lt, lt]
      | asic j =>
        simp only [LT.lt, lt, asic.injEq]
        exact fun hij hji => Nat.le_antisymm (Nat.not_lt.1 hji) (Nat.not_lt.1 hij)
  irrefl a := by
    cases a with
    | host => exact fun h => h
    | asic i => exact Nat.lt_irrefl i
  trans a b c hab hbc := by
    cases a <;> cases b <;> cases c <;> first
      | trivial
      | exact hab.elim
      | exact hbc.elim
      | exact Nat.lt_trans hab hbc

/-- What a target gives for a scope: with several chips the value of a member that names the scope,
otherwise itself for the host. -/
def Part (multiAsic : Bool) (target : Value) (scope : Scope) (config : Value) : Prop :=
  if multiAsic then ∃ ms name, target = .object ms ∧ (name, config) ∈ ms ∧ ofName? name = some scope
  else scope = host ∧ config = target

/-- No two names of members denote the same scope. -/
def NamedOnce (target : Value) : Prop :=
  ∀ ms, target = .object ms → ∀ a ∈ ms, ∀ b ∈ ms, ∀ scope,
    ofName? a.1 = some scope → ofName? b.1 = some scope → a.1 = b.1

variable {parts parts' : Dictionary Scope Value} {ms : List (String × Value)}

theorem parse_eq_ok_iff {name : String} {scope : Scope} :
    parse name = .ok scope ↔ ofName? name = some scope := by
  unfold parse
  cases ofName? name <;> simp

/-- The step of a split: the first member names a scope, and the others are split behind it. -/
theorem splitInto_cons_eq_ok {name : String} {config : Value}
    (h : splitInto parts ((name, config) :: ms) = .ok parts') :
    ∃ scope, ofName? name = some scope ∧ splitInto (parts.insert scope config) ms = .ok parts' := by
  obtain ⟨scope, hscope, hrest⟩ := exists_of_bind_eq_ok h
  exact ⟨scope, parse_eq_ok_iff.1 hscope, hrest⟩

/-- A split succeeds if every member names a scope. -/
theorem exists_splitInto (h : ∀ m ∈ ms, ∃ scope, ofName? m.1 = some scope) (parts : Dictionary Scope Value) :
    ∃ parts', splitInto parts ms = .ok parts' := by
  induction ms generalizing parts with
  | nil => exact ⟨parts, rfl⟩
  | cons m ms ih =>
    obtain ⟨⟨scope, hscope⟩, h⟩ := List.forall_mem_cons.1 h
    obtain ⟨parts', hparts'⟩ := ih h (parts.insert scope m.2)
    exact ⟨parts', by simp only [splitInto, parse_eq_ok_iff.2 hscope, bind, Except.bind, hparts']⟩

theorem sorted_splitInto (h : splitInto parts ms = .ok parts') (hparts : parts.Sorted) :
    parts'.Sorted := by
  induction ms generalizing parts with
  | nil =>
    cases h
    exact hparts
  | cons e ms ih =>
    obtain ⟨scope, -, hrest⟩ := splitInto_cons_eq_ok h
    exact ih hrest (Dictionary.sorted_insert hparts scope e.2)

/-- Every part was there before or is the value of a member that names its scope. -/
theorem mem_of_get?_splitInto {scope : Scope} {config : Value} (h : splitInto parts ms = .ok parts')
    (hget : parts'.get? scope = some config) :
    parts.get? scope = some config ∨ ∃ name, (name, config) ∈ ms ∧ ofName? name = some scope := by
  induction ms generalizing parts with
  | nil =>
    cases h
    exact .inl hget
  | cons e ms ih =>
    obtain ⟨scope', hname, hrest⟩ := splitInto_cons_eq_ok h
    obtain hbefore | ⟨name, hmem, hname'⟩ := ih hrest
    · rw [Dictionary.get?_insert] at hbefore
      split at hbefore
      · rename_i hscope
        obtain rfl : e.2 = config := Option.some.inj hbefore
        exact .inr ⟨e.1, List.mem_cons_self, hscope ▸ hname⟩
      · exact .inl hbefore
    · exact .inr ⟨name, List.mem_cons_of_mem e hmem, hname'⟩

/-- Every scope that is named, or was there before, has a part. -/
theorem exists_get?_splitInto {scope : Scope} (h : splitInto parts ms = .ok parts')
    (hin : (∃ config, parts.get? scope = some config) ∨ ∃ e ∈ ms, ofName? e.1 = some scope) :
    ∃ config, parts'.get? scope = some config := by
  induction ms generalizing parts with
  | nil =>
    cases h
    obtain hbefore | ⟨e, he, -⟩ := hin
    · exact hbefore
    · cases he
  | cons e ms ih =>
    obtain ⟨scope', hname, hrest⟩ := splitInto_cons_eq_ok h
    refine ih hrest ?_
    by_cases hscope : scope' = scope
    · exact .inl ⟨e.2, by rw [Dictionary.get?_insert, if_pos hscope]⟩
    · obtain ⟨config, hbefore⟩ | ⟨e', he', hname'⟩ := hin
      · exact .inl ⟨config, by rw [Dictionary.get?_insert, if_neg hscope, hbefore]⟩
      · rcases List.mem_cons.1 he' with rfl | he'
        · exact absurd (Option.some.inj (hname.symm.trans hname')) hscope
        · exact .inr ⟨e', he', hname'⟩

theorem sorted_splitConfig {multiAsic : Bool} {target : Value}
    (h : splitConfig multiAsic target = .ok parts) : parts.Sorted := by
  unfold splitConfig at h
  split at h
  · split at h
    · exact sorted_splitInto h List.Pairwise.nil
    · cases h
  · cases h
    exact List.pairwise_singleton _ _

/-- The parts of a target are what it gives for the scopes, if it names none of them twice. -/
theorem get?_splitConfig {multiAsic : Bool} {target : Value} (htarget : target.WellFormed)
    (honce : multiAsic = true → NamedOnce target) (h : splitConfig multiAsic target = .ok parts)
    (scope : Scope) (config : Value) :
    parts.get? scope = some config ↔ Part multiAsic target scope config := by
  unfold splitConfig at h
  cases multiAsic with
  | false =>
    cases h
    simp [Part, Dictionary.get?, eq_comm]
  | true =>
    simp only [if_true] at h
    split at h
    · rename_i ms
      constructor
      · intro hget
        obtain hbefore | ⟨name, hmem, hname⟩ := mem_of_get?_splitInto h hget
        · cases hbefore
        · exact ⟨ms, name, rfl, hmem, hname⟩
      · rintro ⟨ms', name, hms, hmem, hname⟩
        cases hms
        obtain ⟨config', hget⟩ := exists_get?_splitInto h (.inr ⟨_, hmem, hname⟩)
        obtain hbefore | ⟨name', hmem', hname'⟩ := mem_of_get?_splitInto h hget
        · cases hbefore
        · -- The member that the part is of has the same name, and so it is the same member.
          obtain rfl : name' = name := honce rfl ms rfl _ hmem' _ hmem scope hname' hname
          rw [hget]
          exact (Dictionary.get?_of_mem htarget.1 hmem').symm.trans
            (Dictionary.get?_of_mem htarget.1 hmem)
    · cases h

theorem wellFormed_part {multiAsic : Bool} {target config : Value} {scope : Scope}
    (htarget : target.WellFormed) (h : Part multiAsic target scope config) : config.WellFormed := by
  cases multiAsic with
  | false =>
    obtain ⟨-, rfl⟩ := h
    exact htarget
  | true =>
    obtain ⟨ms, name, rfl, hmem, -⟩ := h
    exact (Value.wellFormed_object_iff.1 htarget).2 name config (Dictionary.get?_of_mem htarget.1 hmem)

end Scope

end ConfigUpdate
