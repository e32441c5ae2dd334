import ConfigUpdate.Proofs.ScopeNames
import ConfigUpdate.Proofs.SplitScopes
import ConfigUpdate.Proofs.ValueEquality

/-!
# Which members a split keeps

The members of an object are put into the parts one after another, so a scope ends up with the configuration of
the last member that names it. All members are kept exactly if no two of them name the same scope:
`Scope.splitConfig_keeps_iff`. Because a scope has several names, a split may lose a member and still succeed
(`Scope.exists_lost_part`).
-/

namespace ConfigUpdate.Scope

variable {ms : List (String × Value)} {m : String × Value} {parts parts' : Dictionary Scope Value}
  {scope : Scope} {config : Value}

/-- The last member that names a scope has a configuration. -/
def LastNamed (ms : List (String × Value)) (scope : Scope) (config : Value) : Prop :=
  ∃ before name after, ms = before ++ (name, config) :: after ∧ Names name scope ∧
    ∀ later ∈ after, ¬ Names later.1 scope

/-- No two members name the same scope. -/
def NameApart (ms : List (String × Value)) : Prop :=
  ms.Pairwise fun a b => ∀ scope, Names a.1 scope → ¬ Names b.1 scope

theorem lastNamed_cons_iff : LastNamed (m :: ms) scope config ↔
    LastNamed ms scope config ∨ (∀ later ∈ ms, ¬ Names later.1 scope) ∧ Names m.1 scope ∧ m.2 = config := by
  constructor
  · rintro ⟨before, name, after, heq, hname, hafter⟩
    cases before with
    | nil =>
      cases heq
      exact .inr ⟨hafter, hname, rfl⟩
    | cons first before =>
      cases heq
      exact .inl ⟨before, name, after, rfl, hname, hafter⟩
  · rintro (⟨before, name, after, rfl, hname, hafter⟩ | ⟨hlater, hname, rfl⟩)
    · exact ⟨m :: before, name, after, rfl, hname, hafter⟩
    · exact ⟨[], m.1, ms, rfl, hname, hlater⟩

/-- Among members that name different scopes, every one is the last of its scope. -/
theorem NameApart.lastNamed (h : NameApart ms) (hm : m ∈ ms) (hname : Names m.1 scope) :
    LastNamed ms scope m.2 := by
  obtain ⟨before, after, rfl⟩ := List.append_of_mem hm
  have hafter := (List.pairwise_cons.1 (List.pairwise_append.1 h).2.1).1
  exact ⟨before, m.1, after, rfl, hname, fun later hlater => hafter later hlater scope hname⟩

theorem names_of_splitInto_cons (h : splitInto parts (m :: ms) = .ok parts') :
    ∃ scope, Names m.1 scope ∧ splitInto (parts.insert scope m.2) ms = .ok parts' := by
  obtain ⟨scope, hname, hrest⟩ := splitInto_cons_eq_ok h
  exact ⟨scope, ofName?_eq_some_iff.1 hname, hrest⟩

theorem exists_splitInto_iff (parts : Dictionary Scope Value) :
    (∃ parts', splitInto parts ms = .ok parts') ↔ ∀ m ∈ ms, ∃ scope, Names m.1 scope := by
  constructor
  · intro h
    induction ms generalizing parts with
    | nil => exact List.forall_mem_nil _
    | cons m ms ih =>
      obtain ⟨parts', hparts'⟩ := h
      obtain ⟨scope, hname, hrest⟩ := names_of_splitInto_cons hparts'
      exact List.forall_mem_cons.2 ⟨⟨scope, hname⟩, ih _ ⟨parts', hrest⟩⟩
  · intro h
    exact exists_splitInto (fun m hm => (h m hm).imp fun _ => ofName?_eq_some_iff.2) parts

/-- A scope has the configuration of the last member that names it or, if none does, the one from before. -/
theorem get?_splitInto_iff (h : splitInto parts ms = .ok parts') : parts'.get? scope = some config ↔
    LastNamed ms scope config ∨ (∀ m ∈ ms, ¬ Names m.1 scope) ∧ parts.get? scope = some config := by
  induction ms generalizing parts with
  | nil =>
    cases h
    simp [LastNamed]
  | cons m ms ih =>
    obtain ⟨named, hname, hrest⟩ := names_of_splitInto_cons h
    rw [ih hrest, lastNamed_cons_iff, List.forall_mem_cons, Dictionary.get?_insert]
    by_cases hscope : named = scope
    · subst hscope
      rw [if_pos rfl, Option.some.injEq]
      tauto
    · have hother : ¬ Names m.1 scope := fun hname' => hscope (hname.unique hname')
      rw [if_neg hscope]
      tauto

/-- A split adds at most one part for every member, and as many exactly if all members name scopes of their own. -/
theorem length_splitInto (h : splitInto parts ms = .ok parts') (hparts : parts.Sorted) :
    parts'.length ≤ parts.length + ms.length ∧ (parts'.length = parts.length + ms.length ↔
      NameApart ms ∧ ∀ m ∈ ms, ∀ scope, Names m.1 scope → parts.get? scope = none) := by
  induction ms generalizing parts with
  | nil =>
    cases h
    simp [NameApart]
  | cons m ms ih =>
    obtain ⟨named, hname, hrest⟩ := names_of_splitInto_cons h
    obtain ⟨hle, heq⟩ := ih hrest (Dictionary.sorted_insert hparts named m.2)
    have hlength := Dictionary.length_insert hparts named m.2
    cases hget : parts.get? named with
    | some before =>
      -- The member takes the place of another one, so there will be fewer parts.
      rw [hget, Option.isSome_some, if_pos rfl] at hlength
      rw [List.length_cons]
      refine ⟨by omega, iff_of_false (by omega) fun hapart => ?_⟩
      have hnone := hapart.2 m List.mem_cons_self named hname
      rw [hget] at hnone
      cases hnone
    | none =>
      rw [hget, Option.isSome_none, if_neg Bool.false_ne_true] at hlength
      rw [List.length_cons]
      refine ⟨by omega, ?_⟩
      have hsum : parts'.length = parts.length + (ms.length + 1)
          ↔ parts'.length = (parts.insert named m.2).length + ms.length := by
        omega
      have hfirst : (∀ scope, Names m.1 scope → parts.get? scope = none) :=
        fun scope hscope => hname.unique hscope ▸ hget
      rw [hsum, heq, NameApart, NameApart, List.pairwise_cons, List.forall_mem_cons]
      constructor
      · rintro ⟨hapart, hfree⟩
        refine ⟨⟨fun later hlater scope hscope hlaterName => ?_, hapart⟩, hfirst,
          fun later hlater scope hscope => ?_⟩
        · have hnone := hfree later hlater scope hlaterName
          rw [Dictionary.get?_insert, if_pos (hname.unique hscope)] at hnone
          cases hnone
        · have hnone := hfree later hlater scope hscope
          rw [Dictionary.get?_insert] at hnone
          split at hnone
          · cases hnone
          · exact hnone
      · rintro ⟨⟨hother, hapart⟩, -, hfree⟩
        refine ⟨hapart, fun later hlater scope hscope => ?_⟩
        have hne : named ≠ scope := fun heq => hother later hlater scope (heq ▸ hname) hscope
        rw [Dictionary.get?_insert, if_neg hne]
        exact hfree later hlater scope hscope

/-- A split succeeds exactly if every member names a scope. A scope then has the configuration of the last member
that names it, and the split keeps all members, each as the part of its scope and none in the place of another,
exactly if no two members name the same scope. -/
theorem splitConfig_keeps_iff (ms : List (String × Value)) :
    ((∃ parts, splitConfig true (.object ms) = .ok parts) ↔ ∀ m ∈ ms, ∃ scope, Names m.1 scope) ∧
    ∀ parts, splitConfig true (.object ms) = .ok parts →
      (∀ scope config, parts.get? scope = some config ↔ LastNamed ms scope config) ∧
      ((∀ m ∈ ms, ∀ scope, Names m.1 scope → parts.get? scope = some m.2) ∧ parts.length = ms.length ↔
        NameApart ms) := by
  have hsplit : splitConfig true (.object ms) = splitInto [] ms := rfl
  rw [hsplit]
  refine ⟨exists_splitInto_iff [], fun parts hparts => ?_⟩
  have hget : ∀ scope config, parts.get? scope = some config ↔ LastNamed ms scope config := by
    intro scope config
    simp [get?_splitInto_iff hparts]
  have hlength : parts.length = ms.length ↔ NameApart ms := by
    have hcount := (length_splitInto hparts List.Pairwise.nil).2
    simpa using hcount
  refine ⟨hget, fun hkept => hlength.1 hkept.2, fun hapart => ⟨fun m hm scope hname => ?_, hlength.2 hapart⟩⟩
  exact (hget scope m.2).2 (hapart.lastNamed hm hname)

/-- A target for the host and a chip, of which the name has a zero too many. -/
def paddedTarget : List (String × Value) :=
  [("asic00", .object [("VLAN", .empty)]), ("localhost", .object [("PORT", .empty)])]

/-- The parts of the target. -/
def paddedParts : Dictionary Scope Value :=
  [(host, .object [("PORT", .empty)]), (asic 0, .object [("VLAN", .empty)])]

/-- Both members have their part, because they name different scopes. -/
theorem splitConfig_keeps_iff_padded : splitConfig true (.object paddedTarget) = .ok paddedParts ∧
    (∀ m ∈ paddedTarget, ∀ scope, Names m.1 scope → paddedParts.get? scope = some m.2) ∧
    paddedParts.length = paddedTarget.length := by
  have hsplit : splitConfig true (.object paddedTarget) = .ok paddedParts := rfl
  have hapart : NameApart paddedTarget := by
    refine List.pairwise_pair.2 fun scope hchip hhost => ?_
    have heq : asic 0 = host := (Names.unique (by decide) hchip).trans (hhost.unique .localhost)
    cases heq
  exact ⟨hsplit, ((splitConfig_keeps_iff paddedTarget).2 paddedParts hsplit).2.2 hapart⟩

/-- A target with two names of the same chip. -/
def doubledTarget : List (String × Value) :=
  [("asic0", .object [("VLAN", .empty)]), ("asic00", .object [("PORT", .empty)])]

/-- A split can succeed although a member has no part: of two names of a chip the first one loses its
configuration. -/
theorem exists_lost_part :
    ¬ ∀ ms parts, (Value.object ms).WellFormed → splitConfig true (.object ms) = .ok parts →
      (∀ m ∈ ms, ∃ scope, Names m.1 scope ∧ parts.get? scope = some m.2) ∧ parts.length = ms.length := by
  intro h
  have hsplit : splitConfig true (.object doubledTarget) = .ok [(asic 0, .object [("PORT", .empty)])] := rfl
  have hlength := (h doubledTarget _ (by decide) hsplit).2
  cases hlength

end ConfigUpdate.Scope
