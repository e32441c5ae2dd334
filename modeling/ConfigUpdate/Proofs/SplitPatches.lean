import ConfigUpdate.Proofs.PatchGroups

/-!
# Running a patch scope by scope

The configurations of the scopes are the members of one object, under the names of the scopes. A patch whose
operations each stay in one member can be carried out on the object, or be split and carried out on the
configurations one by one; the results are the same: `Scope.runAll_splitOperations`.
-/

namespace ConfigUpdate

namespace Scope

variable {parts results : Dictionary Scope Value} {scope : Scope} {op : Operation} {ops : List Operation}

/-! ## The object of the configurations -/

/-- The configurations under the names of their scopes. -/
def named (parts : Dictionary Scope Value) : List (String × Value) :=
  parts.map fun part => (part.1.name, part.2)

/-- The object with the configurations as members under the names of their scopes. -/
def combined (parts : Dictionary Scope Value) : Value :=
  .object (Dictionary.ofList (named parts))

/-- The numbers of the chips that have a configuration have 32 bits. -/
def AllFit (parts : Dictionary Scope Value) : Prop :=
  ∀ part ∈ parts, part.1.Fits

theorem AllFit.insert (hfit : AllFit parts) (hscope : scope.Fits) (config : Value) :
    AllFit (parts.insert scope config) := by
  intro part hpart
  rcases Dictionary.mem_insert hpart with rfl | hpart
  · exact hscope
  · exact hfit part hpart

theorem nodup_named (hparts : parts.Sorted) (hfit : AllFit parts) : ((named parts).map Prod.fst).Nodup := by
  have hnames : (named parts).map Prod.fst = parts.keys.map name := by simp [named, Dictionary.keys]
  rw [hnames]
  refine List.Nodup.map_on ?_ hparts.nodup_keys
  intro a ha b hb hab
  obtain ⟨part, hpart, rfl⟩ := List.mem_map.1 ha
  obtain ⟨part', hpart', rfl⟩ := List.mem_map.1 hb
  exact name_injective (hfit part hpart) (hfit part' hpart') hab

theorem get?_named_name (hfit : AllFit parts) (hscope : scope.Fits) :
    Dictionary.get? (named parts) scope.name = parts.get? scope := by
  induction parts with
  | nil => rfl
  | cons part parts ih =>
    obtain ⟨hpart, hrest⟩ := List.forall_mem_cons.1 hfit
    by_cases h : part.1 = scope
    · simp [named, Dictionary.get?, h]
    · have hname : part.1.name ≠ scope.name := fun hname => h (name_injective hpart hscope hname)
      have htail := ih hrest
      simpa [named, Dictionary.get?, h, hname] using htail

theorem get?_named_insert (hfit : AllFit parts) (hscope : scope.Fits) (config : Value) (key : String) :
    Dictionary.get? (named (parts.insert scope config)) key
      = if scope.name = key then some config else Dictionary.get? (named parts) key := by
  induction parts with
  | nil => simp [named, Dictionary.insert, Dictionary.get?]
  | cons part parts ih =>
    obtain ⟨hpart, hrest⟩ := List.forall_mem_cons.1 hfit
    unfold Dictionary.insert
    split
    · rename_i h
      by_cases hkey : scope.name = key <;> simp [named, Dictionary.get?, h, hkey]
    · rename_i h
      have hname : part.1.name ≠ scope.name := fun hname => h (name_injective hpart hscope hname)
      split
      · simp [named, Dictionary.get?]
      · have htail := ih hrest
        by_cases hkey : part.1.name = key
        · have hother : scope.name ≠ key := fun hother => hname (hkey.trans hother.symm)
          simp [named, Dictionary.get?, hkey, hother]
        · simpa [named, Dictionary.get?, hkey] using htail

theorem get?_combined (hparts : parts.Sorted) (hfit : AllFit parts) (hscope : scope.Fits) :
    Dictionary.get? (Dictionary.ofList (named parts)) scope.name = parts.get? scope := by
  rw [Dictionary.get?_ofList (nodup_named hparts hfit), get?_named_name hfit hscope]

/-- Setting the configuration of a scope sets the member that is named after the scope. -/
theorem combined_insert (hparts : parts.Sorted) (hfit : AllFit parts) (hscope : scope.Fits) (config : Value) :
    combined (parts.insert scope config)
      = .object (Dictionary.insert (Dictionary.ofList (named parts)) scope.name config) := by
  have hnodup := nodup_named (Dictionary.sorted_insert hparts scope config) (hfit.insert hscope config)
  have hsorted : (Dictionary.ofList (named parts)).Sorted := Dictionary.sorted_ofList _
  have heq : Dictionary.ofList (named (parts.insert scope config))
      = Dictionary.insert (Dictionary.ofList (named parts)) scope.name config := by
    refine Dictionary.ext_of_sorted (Dictionary.sorted_ofList _)
      (Dictionary.sorted_insert hsorted scope.name config) fun key => ?_
    rw [Dictionary.get?_ofList hnodup, get?_named_insert hfit hscope, Dictionary.get?_insert,
      Dictionary.get?_ofList (nodup_named hparts hfit)]
  rw [combined, heq]

/-! ## The operations of a scope -/

theorem liesIn_of_startsAt (hscope : scope.Fits) (hop : op.StartsAt scope.name) : op.LiesIn scope := by
  obtain ⟨s, p, hp, hs⟩ := hop.path
  refine ⟨⟨s, p, hp, hs ▸ names_name hscope⟩, fun source hsource => ?_⟩
  obtain ⟨t, q, hq, ht⟩ := hop.source source hsource
  exact ⟨t, q, hq, ht ▸ names_name hscope⟩

/-! ## Runs -/

/-- What the operations of the scopes make of the configurations. -/
structure Results (groups : Scope → List Operation) (parts results : Dictionary Scope Value) : Prop where
  sorted : results.Sorted
  absent : ∀ scope, parts.get? scope = none → results.get? scope = none
  run : ∀ scope config, parts.get? scope = some config →
    ∃ after, results.get? scope = some after ∧ Operation.runAll config (groups scope) = .ok after

/-- The operation stays in a scope that has a configuration, and does not take away the configuration. -/
structure StaysInside (parts : Dictionary Scope Value) (op : Operation) : Prop where
  scope : ∃ scope config, parts.get? scope = some config ∧ op.StartsAt scope.name
  notBare : ¬ (op.verb = .remove ∧ op.path.length = 1)

theorem StaysInside.insert (h : StaysInside parts op) (scope : Scope) (config : Value) :
    StaysInside (parts.insert scope config) op := by
  obtain ⟨scope', config', hget, hstarts⟩ := h.scope
  refine ⟨?_, h.notBare⟩
  by_cases hscope : scope = scope'
  · exact ⟨scope', config, by rw [Dictionary.get?_insert, if_pos hscope], hstarts⟩
  · exact ⟨scope', config', by rw [Dictionary.get?_insert, if_neg hscope, hget], hstarts⟩

/-- The step of a run: what the first operation makes of its configuration is put in its place. -/
theorem results_cons_iff {config after : Value} (hop : op.LiesIn scope)
    (hget : parts.get? scope = some config) (hrun : op.inside.run config = .ok after) :
    Results (share · (op :: ops)) parts results ↔ Results (share · ops) (parts.insert scope after) results := by
  have hfirst : ∀ final, Operation.runAll config (op.inside :: share scope ops) = .ok final
      ↔ Operation.runAll after (share scope ops) = .ok final := by
    intro final
    rw [← toOption_eq_some_iff, ← toOption_eq_some_iff, Operation.toOption_runAll_cons, hrun]
    rfl
  constructor
  · intro h
    refine ⟨h.sorted, fun origin horigin => ?_, fun origin before horigin => ?_⟩
    · rw [Dictionary.get?_insert] at horigin
      split at horigin
      · cases horigin
      · exact h.absent origin horigin
    · rw [Dictionary.get?_insert] at horigin
      split at horigin
      · rename_i heq
        subst heq
        cases horigin
        obtain ⟨final, hfinal, hshare⟩ := h.run scope config hget
        rw [share_cons hop, if_pos rfl] at hshare
        exact ⟨final, hfinal, (hfirst final).1 hshare⟩
      · rename_i hne
        obtain ⟨final, hfinal, hshare⟩ := h.run origin before horigin
        rw [share_cons hop, if_neg hne] at hshare
        exact ⟨final, hfinal, hshare⟩
  · intro h
    refine ⟨h.sorted, fun origin horigin => ?_, fun origin before horigin => ?_⟩
    · have hne : scope ≠ origin := fun heq => by simp [← heq, hget] at horigin
      exact h.absent origin (by rw [Dictionary.get?_insert, if_neg hne, horigin])
    · rw [share_cons hop]
      by_cases heq : scope = origin
      · subst heq
        obtain rfl : config = before := Option.some.inj (hget.symm.trans horigin)
        obtain ⟨final, hfinal, hshare⟩ := h.run scope after (by rw [Dictionary.get?_insert, if_pos rfl])
        rw [if_pos rfl]
        exact ⟨final, hfinal, (hfirst final).2 hshare⟩
      · rw [if_neg heq]
        exact h.run origin before (by rw [Dictionary.get?_insert, if_neg heq, horigin])

theorem results_nil_iff (hparts : parts.Sorted) :
    Results (share · []) parts results ↔ results = parts := by
  constructor
  · intro h
    refine Dictionary.ext_of_sorted h.sorted hparts fun scope => ?_
    cases hbefore : parts.get? scope with
    | none => exact h.absent scope hbefore
    | some config =>
      obtain ⟨after, hafter, hrun⟩ := h.run scope config hbefore
      cases hrun
      exact hafter
  · rintro rfl
    exact ⟨hparts, fun _ hnone => hnone, fun scope config hget => ⟨config, hget, rfl⟩⟩

/-- The step of a run on the object: it is the step on the configuration. -/
theorem toOption_run_combined (hparts : parts.Sorted) (hfit : AllFit parts) {config : Value}
    (hget : parts.get? scope = some config) (hstarts : op.StartsAt scope.name)
    (hbare : ¬ (op.verb = .remove ∧ op.path.length = 1)) :
    (op.run (combined parts)).toOption
      = (op.inside.run config).toOption.map fun after => combined (parts.insert scope after) := by
  have hscope : scope.Fits := hfit _ (Dictionary.mem_of_get? hget)
  have hmember := (get?_combined hparts hfit hscope).trans hget
  have hsorted : (Dictionary.ofList (named parts)).Sorted := Dictionary.sorted_ofList _
  rw [combined, Operation.toOption_run_object hsorted hstarts hbare hmember]
  simp only [combined_insert hparts hfit hscope]

/-- The operations succeed on the object just if the shares of the scopes all succeed, and then the object
becomes the object of what they make. -/
theorem runAll_combined_iff (hparts : parts.Sorted) (hfit : AllFit parts)
    (hops : ∀ op ∈ ops, StaysInside parts op) (result : Value) :
    Operation.runAll (combined parts) ops = .ok result
      ↔ ∃ results, Results (share · ops) parts results ∧ result = combined results := by
  -- The shares are run one operation at a time too, each when its turn comes in the patch.
  induction ops generalizing parts with
  | nil =>
    simp only [results_nil_iff hparts, exists_eq_left]
    constructor
    · intro h
      cases h
      rfl
    · rintro rfl
      rfl
  | cons op ops ih =>
    obtain ⟨hop, hrest⟩ := List.forall_mem_cons.1 hops
    obtain ⟨scope, config, hget, hstarts⟩ := hop.scope
    have hscope : scope.Fits := hfit _ (Dictionary.mem_of_get? hget)
    have hin := liesIn_of_startsAt hscope hstarts
    rw [← toOption_eq_some_iff, Operation.toOption_runAll_cons,
      toOption_run_combined hparts hfit hget hstarts hop.notBare]
    cases hrun : op.inside.run config with
    | error fault =>
      constructor
      · intro h
        cases h
      · -- The first operation of the share fails, so the share has no result.
        rintro ⟨results, hresults, -⟩
        obtain ⟨final, -, hshare⟩ := hresults.run scope config hget
        rw [share_cons hin, if_pos rfl, ← toOption_eq_some_iff, Operation.toOption_runAll_cons, hrun]
          at hshare
        cases hshare
    | ok after =>
      have hparts' : (parts.insert scope after).Sorted := Dictionary.sorted_insert hparts scope after
      have hrest' : ∀ op ∈ ops, StaysInside (parts.insert scope after) op :=
        fun op hop => (hrest op hop).insert scope after
      simp only [toOption_ok, Option.map_some, Option.bind_some, toOption_eq_some_iff,
        ih hparts' (hfit.insert hscope after) hrest', results_cons_iff hin hget hrun]

theorem exists_results {groups : Scope → List Operation} (hparts : parts.Sorted)
    (hrun : ∀ scope config, parts.get? scope = some config →
      ∃ after, Operation.runAll config (groups scope) = .ok after) :
    ∃ results, Results groups parts results := by
  induction parts with
  | nil => exact ⟨[], List.Pairwise.nil, fun _ _ => rfl, fun _ _ hget => by cases hget⟩
  | cons part parts ih =>
    obtain ⟨scope, config⟩ := part
    obtain ⟨-, hrest⟩ := List.pairwise_cons.1 hparts
    obtain ⟨results, hresults⟩ := ih hrest fun origin before hbefore =>
      hrun origin before
        (Dictionary.get?_of_mem hparts (List.mem_cons_of_mem _ (Dictionary.mem_of_get? hbefore)))
    obtain ⟨after, hafter⟩ := hrun scope config (by simp [Dictionary.get?])
    refine ⟨results.insert scope after, Dictionary.sorted_insert hresults.sorted scope after,
      fun origin horigin => ?_, fun origin before horigin => ?_⟩
    · rw [Dictionary.get?_insert]
      simp only [Dictionary.get?] at horigin
      split at horigin
      · cases horigin
      · rename_i hne
        rw [if_neg hne]
        exact hresults.absent origin horigin
    · rw [Dictionary.get?_insert]
      simp only [Dictionary.get?] at horigin
      split at horigin
      · rename_i heq
        cases horigin
        subst heq
        exact ⟨after, if_pos rfl, hafter⟩
      · rename_i hne
        rw [if_neg hne]
        exact hresults.run origin before horigin

/-- A patch of a switch with several chips is split, and what it makes of the object is the object of what the
groups make of the configurations. -/
theorem runAll_splitOperations (hparts : parts.Sorted) (hfit : AllFit parts)
    (hops : ∀ op ∈ ops, StaysInside parts op) :
    ∃ groups, splitOperations true ops = .ok groups
      ∧ ((∃ result, Operation.runAll (combined parts) ops = .ok result)
        ↔ ∀ scope config, parts.get? scope = some config →
            ∃ after, Operation.runAll config ((groups.get? scope).getD []) = .ok after)
      ∧ ∀ result, Operation.runAll (combined parts) ops = .ok result →
          ∃ results, Results (fun scope => (groups.get? scope).getD []) parts results
            ∧ result = combined results := by
  obtain ⟨groups, hgroups⟩ := exists_splitOperations_iff.2 fun op hop => by
    obtain ⟨scope, config, hget, hstarts⟩ := (hops op hop).scope
    exact ⟨scope, liesIn_of_startsAt (hfit _ (Dictionary.mem_of_get? hget)) hstarts⟩
  have hshare : (fun scope => (groups.get? scope).getD []) = (share · ops) :=
    funext (groups_of_splitOperations hgroups).group
  refine ⟨groups, hgroups, ?_, ?_⟩
  · constructor
    · rintro ⟨result, hrun⟩ scope config hget
      obtain ⟨results, hresults, -⟩ := (runAll_combined_iff hparts hfit hops result).1 hrun
      rw [← hshare] at hresults
      obtain ⟨after, -, hafter⟩ := hresults.run scope config hget
      exact ⟨after, hafter⟩
    · intro hrun
      obtain ⟨results, hresults⟩ := exists_results hparts hrun
      rw [hshare] at hresults
      exact ⟨_, (runAll_combined_iff hparts hfit hops _).2 ⟨results, hresults, rfl⟩⟩
  · intro result hrun
    rw [hshare]
    exact (runAll_combined_iff hparts hfit hops result).1 hrun

/-- A host with a table of ports and a chip with a VLAN. -/
def hostAndChip : Dictionary Scope Value :=
  [(.host, .object [("PORT", .empty)]), (.asic 0, .object [("VLAN", .object [("Vlan10", .empty)])])]

/-- The VLAN gets another name, and the ports of the host go in between. -/
def renameAndDrop : List Operation :=
  [⟨.copy, .ofNames ["asic0", "VLAN", "Vlan20"], none, some (.ofNames ["asic0", "VLAN", "Vlan10"])⟩,
    ⟨.remove, .ofNames ["localhost", "PORT"], none, none⟩,
    ⟨.remove, .ofNames ["asic0", "VLAN", "Vlan10"], none, none⟩]

/-- The host without ports and the chip with the VLAN under its other name. -/
def renamedAndDropped : Dictionary Scope Value :=
  [(.host, .empty), (.asic 0, .object [("VLAN", .object [("Vlan20", .empty)])])]

theorem runAll_splitOperations_renameAndDrop :
    Dictionary.Sorted hostAndChip ∧ AllFit hostAndChip ∧ (∀ op ∈ renameAndDrop, StaysInside hostAndChip op) ∧
      Operation.runAll (combined hostAndChip) renameAndDrop = .ok (combined renamedAndDropped) ∧
      ∃ groups, splitOperations true renameAndDrop = .ok groups
        ∧ ((∃ result, Operation.runAll (combined hostAndChip) renameAndDrop = .ok result)
          ↔ ∀ scope config, hostAndChip.get? scope = some config →
              ∃ after, Operation.runAll config ((groups.get? scope).getD []) = .ok after)
        ∧ ∀ result, Operation.runAll (combined hostAndChip) renameAndDrop = .ok result →
            ∃ results, Results (fun scope => (groups.get? scope).getD []) hostAndChip results
              ∧ result = combined results := by
  have hsorted : Dictionary.Sorted hostAndChip := by
    unfold Dictionary.Sorted hostAndChip
    decide
  have hfit : AllFit hostAndChip := by
    simp [AllFit, hostAndChip, Fits, idBound]
  have hops : ∀ op ∈ renameAndDrop, StaysInside hostAndChip op := by
    have hhost : hostAndChip.get? .host = some (.object [("PORT", .empty)]) := rfl
    have hchip : hostAndChip.get? (.asic 0) = some (.object [("VLAN", .object [("Vlan10", .empty)])]) := rfl
    simp only [renameAndDrop, List.forall_mem_cons]
    refine ⟨⟨⟨_, _, hchip, ⟨_, _, rfl, rfl⟩, ?_⟩, by decide⟩, ⟨⟨_, _, hhost, ⟨_, _, rfl, rfl⟩, ?_⟩, by decide⟩,
      ⟨⟨_, _, hchip, ⟨_, _, rfl, rfl⟩, ?_⟩, by decide⟩, by simp⟩
    all_goals
      intro q hq
      cases hq
    exact ⟨_, _, rfl, rfl⟩
  exact ⟨hsorted, hfit, hops, rfl, runAll_splitOperations hsorted hfit hops⟩

end Scope

end ConfigUpdate
