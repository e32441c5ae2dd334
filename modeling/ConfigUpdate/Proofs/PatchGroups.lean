import ConfigUpdate.Proofs.MemberOperations
import ConfigUpdate.Proofs.ScopeNames
import ConfigUpdate.Proofs.SplitScopes

/-!
# The groups of a patch

Splitting a patch fails just if one of its operations lies in no scope. Otherwise every operation is in the
group of its scope, without the scope in its paths, and a group has its operations in the order of the patch. So
a patch of which all paths have been put into one scope is split into its operations as they were before:
`Scope.splitOperations_groups`.
-/

namespace ConfigUpdate

/-- The first step of the path is a name of the scope. -/
def Pointer.StartsIn (p : Pointer) (scope : Scope) : Prop :=
  ∃ s rest, p = s :: rest ∧ Scope.Names s.name scope

namespace Operation

/-- The paths of the operation start in the scope. -/
structure LiesIn (op : Operation) (scope : Scope) : Prop where
  path : op.path.StartsIn scope
  source : ∀ source, op.source = some source → source.StartsIn scope

/-- Why an operation lies in no scope. -/
inductive Astray (op : Operation) : Prop where
  /-- Its path is empty or starts with something else. -/
  | path (h : ∀ scope, ¬ op.path.StartsIn scope)
  /-- Its source is empty or starts with something else. -/
  | source (source : Pointer) (hsource : op.source = some source) (h : ∀ scope, ¬ source.StartsIn scope)
  /-- Its source is in another scope than its path. -/
  | crossing (source : Pointer) (scope origin : Scope) (hsource : op.source = some source)
    (hpath : op.path.StartsIn scope) (horigin : source.StartsIn origin) (hne : origin ≠ scope)

end Operation

variable {p rest : Pointer} {scope scope' : Scope} {op inside : Operation} {ops : List Operation}

/-! ## The scope of an operation -/

theorem Pointer.StartsIn.unique (h : p.StartsIn scope) (h' : p.StartsIn scope') : scope = scope' := by
  obtain ⟨s, rest, rfl, hname⟩ := h
  obtain ⟨s', rest', heq, hname'⟩ := h'
  cases heq
  exact hname.unique hname'

theorem Scope.ofPath_eq_ok_iff : ofPath p = .ok (scope, rest) ↔ p.StartsIn scope ∧ rest = p.tail := by
  cases p with
  | nil => simp [ofPath, Pointer.StartsIn]
  | cons s' p' =>
    constructor
    · intro h
      obtain ⟨scope', hname, h⟩ := exists_of_bind_eq_ok h
      cases h
      exact ⟨⟨s', rest, rfl, ofName?_eq_some_iff.1 (parse_eq_ok_iff.1 hname)⟩, rfl⟩
    · rintro ⟨⟨s, p, heq, hname⟩, rfl⟩
      cases heq
      rw [ofPath, parse_eq_ok_iff.2 (ofName?_eq_some_iff.2 hname)]
      rfl

/-- Whether a path starts in a scope can be computed. -/
instance (p : Pointer) (scope : Scope) : Decidable (p.StartsIn scope) :=
  match p with
  | [] => isFalse fun ⟨_, _, heq, _⟩ => by cases heq
  | s :: rest => decidable_of_iff (Scope.Names s.name scope)
    ⟨fun h => ⟨s, rest, rfl, h⟩, fun ⟨_, _, heq, h⟩ => by cases heq; exact h⟩

namespace Operation

/-- Whether an operation lies in a scope can be computed. -/
instance (op : Operation) (scope : Scope) : Decidable (op.LiesIn scope) :=
  decidable_of_iff (op.path.StartsIn scope ∧ ∀ source ∈ op.source, source.StartsIn scope)
    ⟨fun h => ⟨h.1, h.2⟩, fun h => ⟨h.path, h.source⟩⟩

theorem LiesIn.unique (h : op.LiesIn scope) (h' : op.LiesIn scope') : scope = scope' :=
  h.path.unique h'.path

theorem inScope_eq_ok_iff : op.inScope = .ok (scope, inside) ↔ op.LiesIn scope ∧ inside = op.inside := by
  obtain ⟨verb, path, value, source⟩ := op
  constructor
  · intro h
    obtain ⟨⟨scope', rest⟩, hpath, h⟩ := exists_of_bind_eq_ok h
    obtain ⟨hstarts, rfl⟩ := Scope.ofPath_eq_ok_iff.1 hpath
    cases source with
    | none =>
      cases h
      exact ⟨⟨hstarts, nofun⟩, rfl⟩
    | some source =>
      obtain ⟨⟨origin, rest⟩, hsource, h⟩ := exists_of_bind_eq_ok h
      obtain ⟨horigin, rfl⟩ := Scope.ofPath_eq_ok_iff.1 hsource
      dsimp only at h
      split at h
      · rename_i heq
        cases h
        exact ⟨⟨hstarts, fun _ h => by cases h; exact heq ▸ horigin⟩, rfl⟩
      · cases h
  · rintro ⟨hop, rfl⟩
    have hpath := Scope.ofPath_eq_ok_iff.2 ⟨hop.path, rfl⟩
    unfold inScope
    rw [hpath]
    cases source with
    | none => rfl
    | some source =>
      have hsource := Scope.ofPath_eq_ok_iff.2 ⟨hop.source source rfl, rfl⟩
      simp only [bind, Except.bind, hsource, if_true]
      rfl

/-- An operation is astray just if it lies in no scope. -/
theorem astray_iff : op.Astray ↔ ∀ scope, ¬ op.LiesIn scope := by
  constructor
  · rintro (h | ⟨source, hsource, h⟩ | ⟨source, scope, origin, hsource, hpath, horigin, hne⟩) other hop
    · exact h other hop.path
    · exact h other (hop.source source hsource)
    · exact hne ((horigin.unique (hop.source source hsource)).trans (hop.path.unique hpath))
  · intro h
    by_cases hpath : ∃ scope, op.path.StartsIn scope
    · obtain ⟨scope, hpath⟩ := hpath
      -- The path has a scope, so it is the source that does not fit.
      obtain ⟨source, hsource, hother⟩ : ∃ source, op.source = some source ∧ ¬ source.StartsIn scope := by
        by_contra hnone
        push Not at hnone
        exact h scope ⟨hpath, hnone⟩
      by_cases horigin : ∃ origin, source.StartsIn origin
      · obtain ⟨origin, horigin⟩ := horigin
        exact .crossing source scope origin hsource hpath horigin fun heq => hother (heq ▸ horigin)
      · exact .source source hsource (not_exists.1 horigin)
    · exact .path (not_exists.1 hpath)

/-! ## Operations put into a scope -/

theorem liesIn_prefixed (hfits : scope.Fits) (op : Operation) : (op.prefixed scope).LiesIn scope := by
  refine ⟨⟨_, _, rfl, Scope.names_name hfits⟩, fun source hsource => ?_⟩
  obtain ⟨source, -, rfl⟩ := Option.map_eq_some_iff.1 hsource
  exact ⟨_, _, rfl, Scope.names_name hfits⟩

/-- Inside the scope into which it has been put, an operation is what it was. -/
theorem inside_prefixed (scope : Scope) (op : Operation) : (op.prefixed scope).inside = op := by
  obtain ⟨verb, path, value, source⟩ := op
  cases source <;> rfl

end Operation

namespace Scope

variable {groups groups' : Dictionary Scope (List Operation)}

/-! ## The steps of a split -/

/-- The step of a split: the first operation is in a scope, and the others are split behind it. -/
theorem groupInto_cons_eq_ok (h : groupInto groups (op :: ops) = .ok groups') :
    ∃ scope, op.LiesIn scope ∧ groupInto (addTo groups scope op.inside) ops = .ok groups' := by
  obtain ⟨⟨scope, inside⟩, hscope, hrest⟩ := exists_of_bind_eq_ok h
  obtain ⟨hop, rfl⟩ := Operation.inScope_eq_ok_iff.1 hscope
  exact ⟨scope, hop, hrest⟩

theorem exists_groupInto_iff (groups : Dictionary Scope (List Operation)) :
    (∃ groups', groupInto groups ops = .ok groups') ↔ ∀ op ∈ ops, ∃ scope, op.LiesIn scope := by
  induction ops generalizing groups with
  | nil => exact ⟨fun _ => List.forall_mem_nil _, fun _ => ⟨groups, rfl⟩⟩
  | cons op ops ih =>
    rw [List.forall_mem_cons]
    constructor
    · rintro ⟨groups', h⟩
      obtain ⟨scope, hop, hrest⟩ := groupInto_cons_eq_ok h
      exact ⟨⟨scope, hop⟩, (ih _).1 ⟨groups', hrest⟩⟩
    · rintro ⟨⟨scope, hop⟩, hops⟩
      obtain ⟨groups', hgroups⟩ := (ih (addTo groups scope op.inside)).2 hops
      refine ⟨groups', ?_⟩
      rw [groupInto, Operation.inScope_eq_ok_iff.2 ⟨hop, rfl⟩]
      exact hgroups

/-- The operations of a patch that lie in a scope, as they are inside it. -/
def share (scope : Scope) (ops : List Operation) : List Operation :=
  (ops.filter (·.LiesIn scope)).map Operation.inside

theorem share_cons (h : op.LiesIn scope) (other : Scope) (ops : List Operation) :
    share other (op :: ops) = if scope = other then op.inside :: share other ops else share other ops := by
  by_cases hother : scope = other
  · subst hother
    simp [share, h]
  · have hnot : ¬ op.LiesIn other := fun h' => hother (h.unique h')
    simp [share, hnot, hother]

/-- Every group gets the operations of its scope, in the order of the patch. -/
theorem get?_groupInto (h : groupInto groups ops = .ok groups') (scope : Scope) :
    (groups'.get? scope).getD [] = (groups.get? scope).getD [] ++ share scope ops := by
  induction ops generalizing groups with
  | nil =>
    cases h
    simp [share]
  | cons op ops ih =>
    obtain ⟨origin, hop, hrest⟩ := groupInto_cons_eq_ok h
    rw [ih hrest, share_cons hop, addTo, Dictionary.get?_insert]
    by_cases hscope : origin = scope <;> simp [hscope]

theorem sorted_groupInto (h : groupInto groups ops = .ok groups') (hgroups : groups.Sorted) :
    groups'.Sorted := by
  induction ops generalizing groups with
  | nil =>
    cases h
    exact hgroups
  | cons op ops ih =>
    obtain ⟨scope, -, hrest⟩ := groupInto_cons_eq_ok h
    exact ih hrest (Dictionary.sorted_insert hgroups scope _)

theorem ne_nil_of_groupInto (h : groupInto groups ops = .ok groups') (hgroups : ∀ group ∈ groups, group.2 ≠ []) :
    ∀ group ∈ groups', group.2 ≠ [] := by
  induction ops generalizing groups with
  | nil =>
    cases h
    exact hgroups
  | cons op ops ih =>
    obtain ⟨scope, -, hrest⟩ := groupInto_cons_eq_ok h
    refine ih hrest fun group hgroup => ?_
    obtain rfl | hgroup := Dictionary.mem_insert hgroup
    · exact List.append_ne_nil_of_right_ne_nil _ (List.cons_ne_nil _ _)
    · exact hgroups group hgroup

/-- An operation that is added is the one operation that the groups have more. -/
theorem perm_addTo (hgroups : groups.Sorted) (scope : Scope) (op : Operation) :
    ((addTo groups scope op).flatMap Prod.snd).Perm (op :: groups.flatMap Prod.snd) := by
  induction groups with
  | nil => simp [addTo, Dictionary.insert]
  | cons group groups ih =>
    obtain ⟨first, before⟩ := group
    obtain ⟨hfirst, hrest⟩ := List.pairwise_cons.1 hgroups
    by_cases heq : first = scope
    · subst heq
      have hadd : addTo ((first, before) :: groups) first op = (first, before ++ [op]) :: groups := by
        simp [addTo, Dictionary.get?, Dictionary.insert]
      rw [hadd, List.flatMap_cons, List.flatMap_cons, List.append_assoc, List.singleton_append]
      exact List.perm_middle
    · have hget : Dictionary.get? ((first, before) :: groups) scope = Dictionary.get? groups scope := by
        simp [Dictionary.get?, heq]
      by_cases hlt : scope < first
      · -- All groups are of later scopes, so this operation is the first one of its group.
        have hnone : Dictionary.get? groups scope = none :=
          Dictionary.get?_eq_none_of_forall_ne fun group hgroup heq =>
            asymm hlt (heq ▸ hfirst group hgroup)
        have hadd : addTo ((first, before) :: groups) scope op = (scope, [op]) :: (first, before) :: groups := by
          simp [addTo, hget, hnone, Dictionary.insert, heq, hlt]
        rw [hadd, List.flatMap_cons, List.singleton_append]
      · have hadd : addTo ((first, before) :: groups) scope op = (first, before) :: addTo groups scope op := by
          simp [addTo, hget, Dictionary.insert, heq, hlt]
        rw [hadd, List.flatMap_cons, List.flatMap_cons]
        exact ((ih hrest).append_left before).trans List.perm_middle

theorem perm_groupInto (h : groupInto groups ops = .ok groups') (hgroups : groups.Sorted) :
    (groups'.flatMap Prod.snd).Perm (groups.flatMap Prod.snd ++ ops.map Operation.inside) := by
  induction ops generalizing groups with
  | nil =>
    cases h
    simp
  | cons op ops ih =>
    obtain ⟨scope, -, hrest⟩ := groupInto_cons_eq_ok h
    have hafter := ih hrest (Dictionary.sorted_insert hgroups scope _)
    have hstep := (perm_addTo hgroups scope op.inside).append_right (ops.map Operation.inside)
    exact hafter.trans (hstep.trans List.perm_middle.symm)

/-! ## Splits -/

/-- The groups of a patch. -/
structure Groups (ops : List Operation) (groups : Dictionary Scope (List Operation)) : Prop where
  sorted : groups.Sorted
  ne_nil : ∀ group ∈ groups, group.2 ≠ []
  /-- A group has the operations that lie in its scope, in their order. -/
  group : ∀ scope, (groups.get? scope).getD [] = (ops.filter (·.LiesIn scope)).map Operation.inside
  /-- Every operation lies in one scope. -/
  scope : ∀ op ∈ ops, ∃! scope, op.LiesIn scope
  /-- The groups have no other operations, and none more often than the patch. -/
  perm : (groups.flatMap Prod.snd).Perm (ops.map Operation.inside)

theorem Groups.get?_eq (h : Groups ops groups) (scope : Scope) :
    groups.get? scope = if share scope ops = [] then none else some (share scope ops) := by
  have hgroup : (groups.get? scope).getD [] = share scope ops := h.group scope
  rw [← hgroup]
  cases hget : groups.get? scope with
  | none => rfl
  | some group => exact (if_neg (h.ne_nil _ (Dictionary.mem_of_get? hget))).symm

theorem exists_splitOperations_iff :
    (∃ groups, splitOperations true ops = .ok groups) ↔ ∀ op ∈ ops, ∃ scope, op.LiesIn scope :=
  exists_groupInto_iff []

theorem groups_of_splitOperations (h : splitOperations true ops = .ok groups) : Groups ops groups := by
  have hinto : groupInto [] ops = .ok groups := h
  refine ⟨sorted_groupInto hinto List.Pairwise.nil, ne_nil_of_groupInto hinto (List.forall_mem_nil _),
    get?_groupInto hinto, fun op hop => ?_, perm_groupInto hinto List.Pairwise.nil⟩
  obtain ⟨scope, hscope⟩ := exists_splitOperations_iff.1 ⟨groups, h⟩ op hop
  exact ⟨scope, hscope, fun other hother => hother.unique hscope⟩

theorem sorted_splitOperations {multiAsic : Bool} (h : splitOperations multiAsic ops = .ok groups) :
    groups.Sorted := by
  cases multiAsic with
  | true => exact (groups_of_splitOperations h).sorted
  | false =>
    cases h
    cases ops with
    | nil => exact List.Pairwise.nil
    | cons op ops => exact List.pairwise_singleton _ _

theorem exists_value_of_splitOperations {multiAsic : Bool} (h : splitOperations multiAsic ops = .ok groups) :
    ∀ group ∈ groups, ∀ op' ∈ group.2, ∃ op ∈ ops, op'.value = op.value := by
  intro group hgroup op' hop'
  cases multiAsic with
  | true =>
    have hperm := (groups_of_splitOperations h).perm
    obtain ⟨op, hop, rfl⟩ := List.mem_map.1 (hperm.subset (List.mem_flatMap.2 ⟨group, hgroup, hop'⟩))
    exact ⟨op, hop, rfl⟩
  | false =>
    cases h
    cases ops with
    | nil => cases hgroup
    | cons op ops =>
      obtain rfl := List.mem_singleton.1 hgroup
      exact ⟨op', hop', rfl⟩

theorem share_prefixed (hfits : scope.Fits) (other : Scope) (ops : List Operation) :
    share other (ops.map (Operation.prefixed scope)) = if scope = other then ops else [] := by
  induction ops with
  | nil => simp [share]
  | cons op ops ih =>
    rw [List.map_cons, share_cons (Operation.liesIn_prefixed hfits op), ih, Operation.inside_prefixed]
    by_cases hother : scope = other <;> simp [hother]

/-- Operations that have been put into one scope make one group. -/
theorem splitOperations_prefixed (hfits : scope.Fits) (ops : List Operation) :
    splitOperations true (ops.map (Operation.prefixed scope)) = .ok (if ops = [] then [] else [(scope, ops)]) := by
  have hlies : ∀ op ∈ ops.map (Operation.prefixed scope), ∃ scope, op.LiesIn scope := by
    intro op hop
    obtain ⟨op, -, rfl⟩ := List.mem_map.1 hop
    exact ⟨scope, Operation.liesIn_prefixed hfits op⟩
  obtain ⟨groups, hgroups⟩ := exists_splitOperations_iff.2 hlies
  have hsplit := groups_of_splitOperations hgroups
  rw [hgroups]
  refine congrArg Except.ok (Dictionary.ext_of_sorted hsplit.sorted ?_ fun other => ?_)
  · split
    · exact List.Pairwise.nil
    · exact List.pairwise_singleton _ _
  · rw [hsplit.get?_eq, share_prefixed hfits]
    by_cases hops : ops = [] <;> by_cases hother : scope = other <;> simp [hops, hother, Dictionary.get?]

theorem splitConfig_wrapConfig (hfits : scope.Fits) (config : Value) :
    splitConfig true (wrapConfig scope config) = .ok [(scope, config)] := by
  have hparse : parse scope.name = .ok scope := parse_eq_ok_iff.2 (ofName?_name hfits)
  simp only [splitConfig, wrapConfig, if_true, splitInto, hparse]
  rfl

/-- Splitting a patch fails just if one of its operations is astray; otherwise it finds the groups of the patch.
What has been put into one scope is taken out of it again unchanged, a patch as well as a configuration. -/
theorem splitOperations_groups :
    (∀ ops, ((∃ fault, splitOperations true ops = .error fault) ↔ ∃ op ∈ ops, op.Astray) ∧
      ∀ groups, splitOperations true ops = .ok groups → Groups ops groups) ∧
    ∀ scope : Scope, scope.Fits →
      (∀ ops, ops ≠ [] → splitOperations true (ops.map (Operation.prefixed scope)) = .ok [(scope, ops)]) ∧
      ∀ config, splitConfig true (wrapConfig scope config) = .ok [(scope, config)] := by
  refine ⟨fun ops => ⟨?_, fun groups => groups_of_splitOperations⟩, fun scope hfits =>
    ⟨fun ops hops => ?_, splitConfig_wrapConfig hfits⟩⟩
  · have hfails : (∃ fault, splitOperations true ops = .error fault)
        ↔ ¬ ∃ groups, splitOperations true ops = .ok groups := by
      cases splitOperations true ops <;> simp
    rw [hfails, exists_splitOperations_iff]
    simp only [Operation.astray_iff]
    push Not
    rfl
  · rw [splitOperations_prefixed hfits, if_neg hops]

/-- A VLAN of a chip gets another name, and the ports of the host go in between. -/
def renameAround : List Operation :=
  [⟨.copy, .ofNames ["asic0", "VLAN", "Vlan20"], none, some (.ofNames ["asic00", "VLAN", "Vlan10"])⟩,
    ⟨.remove, .ofNames ["localhost", "PORT"], none, none⟩,
    ⟨.remove, .ofNames ["asic0", "VLAN", "Vlan10"], none, none⟩]

/-- What is done on the chip. -/
def renameVlan : List Operation :=
  [⟨.copy, .ofNames ["VLAN", "Vlan20"], none, some (.ofNames ["VLAN", "Vlan10"])⟩,
    ⟨.remove, .ofNames ["VLAN", "Vlan10"], none, none⟩]

/-- The operations of the host and of the chip. -/
def renameGroups : Dictionary Scope (List Operation) :=
  [(host, [⟨.remove, .ofNames ["PORT"], none, none⟩]), (asic 0, renameVlan)]

theorem splitOperations_groups_rename : splitOperations true renameAround = .ok renameGroups ∧
    Groups renameAround renameGroups ∧ (asic 0).Fits ∧ renameVlan ≠ [] ∧
    splitOperations true (renameVlan.map (Operation.prefixed (asic 0))) = .ok [(asic 0, renameVlan)] ∧
    splitConfig true (wrapConfig (asic 0) .empty) = .ok [(asic 0, .empty)] := by
  have hsplit : splitOperations true renameAround = .ok renameGroups := rfl
  have hfits : (asic 0).Fits := by simp [Fits, idBound]
  have hne : renameVlan ≠ [] := List.cons_ne_nil _ _
  obtain ⟨hpatch, hconfig⟩ := splitOperations_groups.2 (asic 0) hfits
  exact ⟨hsplit, (splitOperations_groups.1 renameAround).2 renameGroups hsplit, hfits, hne,
    hpatch renameVlan hne, hconfig .empty⟩

end Scope

end ConfigUpdate
