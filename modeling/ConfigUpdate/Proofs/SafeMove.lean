import ConfigUpdate.Proofs.BlendStep
import ConfigUpdate.Proofs.LayeredRules

/-!
# From every accepted blend some move leads to another one

The rules give an order of the tables: a table comes after those whose entries its own entries need or
name. As long as entries of the target are missing, the first table that misses one is filled, bases of
keys first. After that any move is safe that takes no entry away; if there is none, the last table with
an entry too many is emptied, compound keys first. This is `exists_safe_move`.
-/

namespace ConfigUpdate

namespace ReferenceRules

theorem exists_table_of_hasEntry (tree : Value) :
    ∃ tables : List String, ∀ table key, hasEntry tree table key = true → table ∈ tables := by
  cases tree with
  | object ts =>
    refine ⟨Dictionary.keys ts, fun table key h => ?_⟩
    rw [Dictionary.mem_keys_iff, Dictionary.contains]
    rw [hasEntry, entries, Value.get?] at h
    cases ht : Dictionary.get? ts table with
    | none => simp [ht, Dictionary.contains] at h
    | some t => rfl
  | scalar s => exact ⟨[], fun table key h => by cases h⟩
  | array xs => exact ⟨[], fun table key h => by cases h⟩

end ReferenceRules

/-- The second tree has an entry that the first one lacks. -/
def Lacks (tree other : Value) (table key : String) : Prop :=
  ReferenceRules.hasEntry other table key = true ∧ ReferenceRules.hasEntry tree table key = false

theorem Lacks.ne {tree other : Value} {table key : String} (h : Lacks tree other table key) :
    ReferenceRules.hasEntry tree table key ≠ ReferenceRules.hasEntry other table key := by
  rw [h.1, h.2]
  decide

theorem hasEntry_of_not_lacks {tree other : Value} {table key : String}
    (h : ¬ Lacks tree other table key) (hother : ReferenceRules.hasEntry other table key = true) :
    ReferenceRules.hasEntry tree table key = true := by
  by_contra hnot
  exact h ⟨hother, by simpa using hnot⟩

/-! ## Safe moves -/

section Safe

open ReferenceRules Value

variable {rules : ReferenceRules} {current target : Value}
variable (hc : current.WellFormed) (ht : target.WellFormed)
variable {taken : Pointer → Bool}
variable (hlast : rules.Accepts (settled current target))
variable (hnow : rules.Accepts (blend taken current target))

include hc ht

/-- Where a blend does not agree with the last tree about an entry, a move is left that brings it or
takes it away. -/
theorem exists_pending_of_ne {table key : String}
    (h : hasEntry (blend taken current target) table key
      ≠ hasEntry (settled current target) table key) :
    ∃ m ∈ diff current target, taken m.path = false ∧ m.path <+: Pointer.ofNames [table, key] := by
  refine (kept_or_pending hc ht taken [table, key]).resolve_left fun hkept => h ?_
  rw [hasEntry_eq_isSome, hasEntry_eq_isSome, hkept.isSome_eq]

/-- A move that brings an entry takes none away. -/
theorem hasEntry_of_addition {table key : String}
    (hlacks : Lacks (blend taken current target) (settled current target) table key)
    {m : Move} (hm : m ∈ diff current target) (hpending : taken m.path = false)
    (hp : m.path <+: Pointer.ofNames [table, key]) (hroot : m.path ≠ []) {other k : String}
    (hk : hasEntry (blend taken current target) other k = true) :
    hasEntry (blend (withPlace taken m.path) current target) other k = true := by
  obtain ⟨hpresent, hmissing⟩ := hlacks
  by_cases hother : m.path <+: Pointer.ofNames [other, k]
  · obtain rfl := table_eq_of_path hroot hp hother
    have hbefore : ∀ k', m.path <+: Pointer.ofNames [table, k'] →
        hasEntry (blend taken current target) table k' = hasEntry current table k' := by
      intro k' hk'
      rw [hasEntry_eq_isSome, hasEntry_eq_isSome, memberAt_blend_at hc ht hm hk', hpending]
      rfl
    rw [hbefore k hother] at hk
    rw [hbefore key hp] at hmissing
    rcases table_or_entry hroot hp with h | hentry
    · rcases hasEntry_eq_false_of_table hc ht hm h with hnone | hnone
      · rw [hnone k] at hk
        cases hk
      · rw [hnone key] at hpresent
        cases hpresent
    · obtain ⟨-, rfl⟩ := hentry _ _ hother
      rw [hmissing] at hk
      cases hk
  · rw [hasEntry_withPlace_elsewhere hc ht hother]
    exact hk

section Complete

variable (hcomplete : ∀ table key,
  ¬ Lacks (blend taken current target) (settled current target) table key)
variable {m : Move} (hm : m ∈ diff current target)

include hm

/-- A move that takes an entry away takes it from its table. -/
theorem hasEntry_or_removed (hroot : m.path ≠ []) {table key : String}
    (hp : m.path <+: Pointer.ofNames [table, key]) {other k : String}
    (hk : hasEntry (blend taken current target) other k = true) :
    hasEntry (blend (withPlace taken m.path) current target) other k = true ∨
      (table = other ∧ m.path <+: Pointer.ofNames [other, k] ∧
        hasEntry (settled current target) other k = false) := by
  by_cases hown : m.path <+: Pointer.ofNames [other, k]
  · rw [hasEntry_withPlace hc ht hm hown]
    cases hb : hasEntry (settled current target) other k with
    | true => exact .inl rfl
    | false => exact .inr ⟨table_eq_of_path hroot hp hown, hown, rfl⟩
  · rw [hasEntry_withPlace_elsewhere hc ht hown]
    exact .inl hk

include hcomplete

/-- Where no entry is missing, those of the last tree stay. -/
theorem hasEntry_of_last {other k : String}
    (hk : hasEntry (settled current target) other k = true) :
    hasEntry (blend (withPlace taken m.path) current target) other k = true := by
  by_cases hown : m.path <+: Pointer.ofNames [other, k]
  · rw [hasEntry_withPlace hc ht hm hown]
    exact hk
  · rw [hasEntry_withPlace_elsewhere hc ht hown]
    exact hasEntry_of_not_lacks (hcomplete other k) hk

/-- Where no entry is missing, none is added. -/
theorem hasEntry_of_withPlace {other k : String}
    (hk : hasEntry (blend (withPlace taken m.path) current target) other k = true) :
    hasEntry (blend taken current target) other k = true := by
  by_cases hown : m.path <+: Pointer.ofNames [other, k]
  · rw [hasEntry_withPlace hc ht hm hown] at hk
    exact hasEntry_of_not_lacks (hcomplete other k) hk
  · rw [hasEntry_withPlace_elsewhere hc ht hown] at hk
    exact hk

end Complete

include hlast hnow

/-- A missing entry can be added if the tables on which its table depends miss none, and the base of its
key is not missing either. -/
theorem accepts_of_addition {table key : String}
    (hfirst : ∀ other, table ≠ other → rules.DependsOn table other → ∀ k,
      ¬ Lacks (blend taken current target) (settled current target) other k)
    (hlacks : Lacks (blend taken current target) (settled current target) table key)
    (hbase : Lacks (blend taken current target) (settled current target) table
      (EntryKey.baseOf key) → EntryKey.baseOf key = key)
    (hapart : ∀ rule ∈ rules.references, rule.table ≠ rule.targetTable)
    {m : Move} (hm : m ∈ diff current target) (hpending : taken m.path = false)
    (hp : m.path <+: Pointer.ofNames [table, key]) :
    rules.Accepts (blend (withPlace taken m.path) current target) := by
  by_cases hroot : m.path = []
  · rw [blend_withPlace_root hc ht hm hroot]
    exact hlast
  have hgrows : ∀ other k, hasEntry (blend taken current target) other k = true →
      hasEntry (blend (withPlace taken m.path) current target) other k = true :=
    fun other k => hasEntry_of_addition hc ht hlacks hm hpending hp hroot
  constructor
  · intro rule hrule k hk hneeds
    by_cases hbefore : hasEntry (blend taken current target) rule.table k = true
    · exact hgrows _ _ (hnow.parents rule hrule k hbefore hneeds)
    · -- The move brings the entry, so its table is the one that is filled.
      have hown : m.path <+: Pointer.ofNames [rule.table, k] := by
        by_contra hnot
        rw [hasEntry_withPlace_elsewhere hc ht hnot] at hk
        exact hbefore hk
      have htable := table_eq_of_path hroot hp hown
      rw [hasEntry_withPlace hc ht hm hown] at hk
      have hparent := hlast.parents rule hrule k hk hneeds
      by_cases hself : table = rule.parentTable
      · by_cases hbaseOwn : m.path <+: Pointer.ofNames [rule.parentTable, EntryKey.baseOf k]
        · rw [hasEntry_withPlace hc ht hm hbaseOwn]
          exact hparent
        · -- The move is made in the entry alone, so the base that is needed is another one.
          have hentry := (table_or_entry hroot hp).resolve_left fun h =>
            hbaseOwn (prefix_entry_iff.2 (.inr (.inl (hself ▸ h))))
          obtain ⟨-, rfl⟩ := hentry _ _ hown
          rw [← hself] at hparent hbaseOwn ⊢
          refine hgrows _ _ (hasEntry_of_not_lacks (fun hbaseLacks => ?_) hparent)
          exact hbaseOwn ((hbase hbaseLacks).symm ▸ hp)
      · have hdep : rules.DependsOn table rule.parentTable := .inl ⟨rule, hrule, htable.symm, rfl⟩
        exact hgrows _ _ (hasEntry_of_not_lacks (hfirst _ hself hdep _) hparent)
  · intro rule hrule k name hname
    by_cases hown : m.path <+: Pointer.ofNames [rule.table, k, rule.field]
    · rw [namesAt_withPlace hc ht hm hown] at hname
      have htable := table_eq_of_path hroot hp hown
      have hne : table ≠ rule.targetTable := htable ▸ hapart rule hrule
      have hdep : rules.DependsOn table rule.targetTable := .inr ⟨rule, hrule, htable.symm, rfl⟩
      exact hgrows _ _ (hasEntry_of_not_lacks (hfirst _ hne hdep _)
        (hlast.references rule hrule k name hname))
    · rw [namesAt_withPlace_elsewhere hc ht hown] at hname
      exact hgrows _ _ (hnow.references rule hrule k name hname)

/-- If no entry is missing, a move that takes none away can be made. -/
theorem accepts_of_keeping
    (hcomplete : ∀ table key, ¬ Lacks (blend taken current target) (settled current target) table key)
    {m : Move} (hm : m ∈ diff current target)
    (hkeeps : ∀ table key, m.path <+: Pointer.ofNames [table, key] →
      ¬ Lacks (settled current target) (blend taken current target) table key) :
    rules.Accepts (blend (withPlace taken m.path) current target) := by
  have hentry : ∀ table key, hasEntry (blend (withPlace taken m.path) current target) table key
      = hasEntry (blend taken current target) table key := by
    intro table key
    refine Bool.eq_iff_iff.2 ⟨hasEntry_of_withPlace hc ht hcomplete hm, fun hkey => ?_⟩
    by_cases hown : m.path <+: Pointer.ofNames [table, key]
    · rw [hasEntry_withPlace hc ht hm hown]
      exact hasEntry_of_not_lacks (hkeeps table key hown) hkey
    · rw [hasEntry_withPlace_elsewhere hc ht hown]
      exact hkey
  constructor
  · intro rule hrule key hkey hneeds
    rw [hentry] at hkey ⊢
    exact hnow.parents rule hrule key hkey hneeds
  · intro rule hrule key name hname
    rw [hentry]
    by_cases hown : m.path <+: Pointer.ofNames [rule.table, key, rule.field]
    · rw [namesAt_withPlace hc ht hm hown] at hname
      exact hasEntry_of_not_lacks (hcomplete _ _) (hlast.references rule hrule key name hname)
    · rw [namesAt_withPlace_elsewhere hc ht hown] at hname
      exact hnow.references rule hrule key name hname

/-- If no entry is missing and every move that is left takes one away, then an entry too many can be
removed if no table that depends on its table has one, and it is no base of another one. -/
theorem accepts_of_removal {table key : String}
    (hcomplete : ∀ table key, ¬ Lacks (blend taken current target) (settled current target) table key)
    (hremoves : ∀ m ∈ diff current target, taken m.path = false → ∃ other k,
      m.path <+: Pointer.ofNames [other, k] ∧
        Lacks (settled current target) (blend taken current target) other k)
    (hfinal : ∀ other, other ≠ table → rules.DependsOn other table → ∀ k,
      ¬ Lacks (settled current target) (blend taken current target) other k)
    (hcompound : EntryKey.baseOf key = key → ∀ k,
      Lacks (settled current target) (blend taken current target) table k → EntryKey.baseOf k = k)
    (hapart : ∀ rule ∈ rules.references, rule.table ≠ rule.targetTable)
    {m : Move} (hm : m ∈ diff current target) (hp : m.path <+: Pointer.ofNames [table, key]) :
    rules.Accepts (blend (withPlace taken m.path) current target) := by
  by_cases hroot : m.path = []
  · rw [blend_withPlace_root hc ht hm hroot]
    exact hlast
  constructor
  · intro rule hrule k hk hneeds
    cases hb : hasEntry (settled current target) rule.table k with
    | true => exact hasEntry_of_last hc ht hcomplete hm (hlast.parents rule hrule k hb hneeds)
    | false =>
      have hk' := hasEntry_of_withPlace hc ht hcomplete hm hk
      have hparent := hnow.parents rule hrule k hk' hneeds
      rcases hasEntry_or_removed hc ht hm hroot hp hparent with hthere | ⟨htable, hown, -⟩
      · exact hthere
      · exfalso
        by_cases hself : rule.table = table
        · -- The entry is not removed itself, so the removed one is its base and no compound key.
          subst hself
          have hnot : ¬ m.path <+: Pointer.ofNames [rule.table, k] := by
            intro hownk
            rw [hasEntry_withPlace hc ht hm hownk, hb] at hk
            cases hk
          have hentry := (table_or_entry hroot hp).resolve_left fun h =>
            hnot (prefix_entry_iff.2 (.inr (.inl h)))
          obtain ⟨-, hkey⟩ := hentry _ _ hown
          have hbase : EntryKey.baseOf key = key := by rw [← hkey, EntryKey.baseOf_baseOf]
          rw [← hcompound hbase k ⟨hk', hb⟩, hkey] at hnot
          exact hnot hp
        · exact hfinal _ hself (.inl ⟨rule, hrule, rfl, htable.symm⟩) k ⟨hk', hb⟩
  · intro rule hrule k name hname
    by_cases hown : m.path <+: Pointer.ofNames [rule.table, k, rule.field]
    · rw [namesAt_withPlace hc ht hm hown] at hname
      exact hasEntry_of_last hc ht hcomplete hm (hlast.references rule hrule k name hname)
    · rw [namesAt_withPlace_elsewhere hc ht hown] at hname
      have htarget := hnow.references rule hrule k name hname
      rcases hasEntry_or_removed hc ht hm hroot hp htarget with hthere | ⟨htable, -, hgone⟩
      · exact hthere
      · exfalso
        rcases kept_or_pending hc ht taken [rule.table, k, rule.field] with
          hkept | ⟨m', hm', hpending', hp'⟩
        · rw [← namesAt_eq_of_kept hkept] at hname
          rw [hlast.references rule hrule k name hname] at hgone
          cases hgone
        · -- The field is still to be changed, so its table has an entry too many.
          obtain ⟨other, k', hown', hlacks'⟩ := hremoves m' hm' hpending'
          by_cases hroot' : m'.path = []
          · exact hroot (path_eq_nil_of_root hc ht hm' hroot' hm)
          · obtain rfl := table_eq_of_path hroot' hp' hown'
            have hself : rule.table ≠ table := fun h => hapart rule hrule (h.trans htable)
            exact hfinal _ hself (.inr ⟨rule, hrule, rfl, htable.symm⟩) k' hlacks'

/-! ## Which move is safe -/

/-- If an entry is missing, one can be added: in the first table that misses one, a base key first. -/
theorem exists_safe_addition (hrules : rules.Layered)
    (h : ∃ table key, Lacks (blend taken current target) (settled current target) table key) :
    ∃ m ∈ diff current target, taken m.path = false ∧
      rules.Accepts (blend (withPlace taken m.path) current target) := by
  obtain ⟨tables, htables⟩ := exists_table_of_hasEntry (settled current target)
  obtain ⟨table, ⟨k, hk⟩, hfirst⟩ := exists_extremal hrules.acyclic
    ⟨tables, fun a ⟨key, hkey⟩ => htables a key hkey.1⟩ h
  -- A base key comes before the compound keys that may need it.
  obtain ⟨key, hlacks, hbase⟩ : ∃ key,
      Lacks (blend taken current target) (settled current target) table key ∧
      (Lacks (blend taken current target) (settled current target) table (EntryKey.baseOf key) →
        EntryKey.baseOf key = key) := by
    by_cases hb : Lacks (blend taken current target) (settled current target) table
        (EntryKey.baseOf k)
    · exact ⟨EntryKey.baseOf k, hb, fun _ => EntryKey.baseOf_baseOf k⟩
    · exact ⟨k, hk, fun hbase => absurd hbase hb⟩
  obtain ⟨m, hm, hpending, hp⟩ := exists_pending_of_ne hc ht hlacks.ne
  exact ⟨m, hm, hpending, accepts_of_addition hc ht hlast hnow
    (fun other hne hdep k hk => hfirst other ⟨k, hk⟩ ⟨hne, hdep⟩)
    hlacks hbase hrules.apart hm hpending hp⟩

/-- If every move that is left takes an entry away, one can be removed: in the last table that has one
too many, a compound key first. -/
theorem exists_safe_removal (hrules : rules.Layered)
    (hcomplete : ∀ table key, ¬ Lacks (blend taken current target) (settled current target) table key)
    (hremoves : ∀ m ∈ diff current target, taken m.path = false → ∃ other k,
      m.path <+: Pointer.ofNames [other, k] ∧
        Lacks (settled current target) (blend taken current target) other k)
    (h : ∃ table key, Lacks (settled current target) (blend taken current target) table key) :
    ∃ m ∈ diff current target, taken m.path = false ∧
      rules.Accepts (blend (withPlace taken m.path) current target) := by
  obtain ⟨tables, htables⟩ := exists_table_of_hasEntry (blend taken current target)
  obtain ⟨table, ⟨k, hk⟩, hfinal⟩ := exists_extremal
    (r := fun a b => b ≠ a ∧ rules.DependsOn b a)
    (fun a ha => hrules.acyclic a (Relation.transGen_swap.1 ha))
    ⟨tables, fun a ⟨key, hkey⟩ => htables a key hkey.1⟩ h
  -- A compound key goes before the base key that it may need.
  obtain ⟨key, hlacks, hcompound⟩ : ∃ key,
      Lacks (settled current target) (blend taken current target) table key ∧
      (EntryKey.baseOf key = key → ∀ k,
        Lacks (settled current target) (blend taken current target) table k →
          EntryKey.baseOf k = k) := by
    by_cases hb : ∃ k, Lacks (settled current target) (blend taken current target) table k ∧
        EntryKey.baseOf k ≠ k
    · obtain ⟨k', hk', hne⟩ := hb
      exact ⟨k', hk', fun heq => absurd heq hne⟩
    · refine ⟨k, hk, fun _ k' hk' => ?_⟩
      by_contra hne
      exact hb ⟨k', hk', hne⟩
  obtain ⟨m, hm, hpending, hp⟩ := exists_pending_of_ne hc ht hlacks.ne.symm
  exact ⟨m, hm, hpending, accepts_of_removal hc ht hlast hnow hcomplete hremoves
    (fun other hne hdep k hk => hfinal other ⟨k, hk⟩ ⟨hne, hdep⟩) hcompound hrules.apart hm hp⟩

/-- From an accepted blend, as long as moves are left, one of them leads to an accepted blend. -/
theorem exists_safe_move (hrules : rules.Layered)
    (hleft : ∃ m ∈ diff current target, taken m.path = false) :
    ∃ m ∈ diff current target, taken m.path = false ∧
      rules.Accepts (blend (withPlace taken m.path) current target) := by
  -- Entries are added first, then the moves are made that take no entry away, then the others.
  by_cases hmissing : ∃ table key,
      Lacks (blend taken current target) (settled current target) table key
  · exact exists_safe_addition hc ht hlast hnow hrules hmissing
  have hcomplete : ∀ table key,
      ¬ Lacks (blend taken current target) (settled current target) table key :=
    fun table key h => hmissing ⟨table, key, h⟩
  by_cases hkeeping : ∃ m ∈ diff current target, taken m.path = false ∧ ∀ table key,
      m.path <+: Pointer.ofNames [table, key] →
        ¬ Lacks (settled current target) (blend taken current target) table key
  · obtain ⟨m, hm, hpending, hkeeps⟩ := hkeeping
    exact ⟨m, hm, hpending, accepts_of_keeping hc ht hlast hnow hcomplete hm hkeeps⟩
  have hremoves : ∀ m ∈ diff current target, taken m.path = false → ∃ other k,
      m.path <+: Pointer.ofNames [other, k] ∧
        Lacks (settled current target) (blend taken current target) other k := by
    intro m hm hpending
    by_contra hnone
    exact hkeeping ⟨m, hm, hpending, fun table key hp hlacks => hnone ⟨table, key, hp, hlacks⟩⟩
  obtain ⟨m, hm, hpending⟩ := hleft
  obtain ⟨table, key, -, hlacks⟩ := hremoves m hm hpending
  exact exists_safe_removal hc ht hlast hnow hrules hcomplete hremoves ⟨table, key, hlacks⟩

end Safe

end ConfigUpdate
