import ConfigUpdate.Proofs.ScopeNames
import ConfigUpdate.Proofs.SortedDictionary
import ConfigUpdate.Settings.Basic

/-!
# Overrides of namespaces

A chip may be named in more ways than one (`Scope.Names`). Settings are checked, and the scopes of a switch are
listed, for what the names mean; the overrides of a chip are looked up by how the name is written. So the first
namespace of a chip says where its configuration is exactly if its name is the one that is written for the chip:
`Settings.overrides_followed_iff`.
-/

namespace ConfigUpdate

/-- The places of the configuration and of the published state of a chip, and its database server. -/
structure ChipPlaces where
  /-- The file of the configuration. -/
  configPath : String
  /-- The file with what the device publishes. -/
  statePath : Option String
  /-- The host and the port of the database server. -/
  redis : String × Nat
  deriving DecidableEq, Repr

/-- What a namespace says about a chip: its overrides, and what the settings of the host give where it has none. -/
def NamespaceSettings.places (ns : NamespaceSettings) (store : StoreSettings) (id : Nat) : ChipPlaces where
  configPath := ns.configPath.getD (Path.numbered store.configPath id)
  statePath := ns.statePath <|> store.statePath.map (Path.numbered · id)
  redis := (ns.redisHost.getD store.redisHost, ns.redisPort.getD store.redisPort)

/-- A namespace of a chip without overrides. -/
def NamespaceSettings.bare (id : Nat) : NamespaceSettings where
  name := (Scope.asic id).name

namespace Settings

variable {s : Settings} {id : Nat} {ns ns' : NamespaceSettings} {before after : List NamespaceSettings}

/-- The settings with other namespaces. -/
def withNamespaces (s : Settings) (namespaces : List NamespaceSettings) : Settings :=
  { s with namespaces }

/-- The places that are used for a chip. -/
def places (s : Settings) (id : Nat) : ChipPlaces where
  configPath := s.configPath (.asic id)
  statePath := s.statePath? (.asic id)
  redis := s.redisEndpoint (.asic id)

/-- The first namespace that names a chip, with those before and after it. -/
structure FirstNaming (s : Settings) (id : Nat) (before : List NamespaceSettings) (ns : NamespaceSettings)
    (after : List NamespaceSettings) : Prop where
  split : s.namespaces = before ++ ns :: after
  names : Scope.Names ns.name (.asic id)
  first : ∀ other ∈ before, ¬ Scope.Names other.name (.asic id)

theorem mem_scopes_asic_iff :
    Scope.asic id ∈ s.scopes ↔ s.multiAsic = true ∧ ∃ ns ∈ s.namespaces, Scope.Names ns.name (.asic id) := by
  unfold scopes
  cases s.multiAsic with
  | false => simp
  | true =>
    rw [if_pos rfl, List.mem_cons, Dictionary.mem_keys_ofList]
    simp [← Scope.ofName?_eq_some_iff]

/-- A chip that is a scope of the switch has a first namespace. -/
theorem exists_firstNaming (hchip : Scope.asic id ∈ s.scopes) :
    ∃ before ns after, s.FirstNaming id before ns after := by
  obtain ⟨-, ns, hns, hnames⟩ := mem_scopes_asic_iff.1 hchip
  have hsome : (s.namespaces.find? fun ns => Scope.Names ns.name (.asic id)).isSome = true :=
    List.find?_isSome.2 ⟨ns, hns, by simpa using hnames⟩
  obtain ⟨first, hfirst⟩ := Option.isSome_iff_exists.1 hsome
  obtain ⟨hnames, before, after, hsplit, hbefore⟩ := List.find?_eq_some_iff_append.1 hfirst
  exact ⟨before, first, after, hsplit, by simpa using hnames, by simpa using hbefore⟩

/-- What is used for a chip is what the first namespace says that has exactly its name. -/
theorem places_eq (s : Settings) (id : Nat) :
    s.places id = ((s.namespaceOf? (.asic id)).getD (.bare id)).places s.store id := by
  simp only [places, configPath, statePath?, redisEndpoint, NamespaceSettings.places]
  cases s.namespaceOf? (.asic id) with
  | none => rfl
  | some ns => rfl

theorem namespaceOf?_eq (s : Settings) (id : Nat) :
    s.namespaceOf? (.asic id) = s.namespaces.find? (·.name == (Scope.asic id).name) :=
  rfl

/-- No name of another scope is the one that is written for the chip. -/
theorem FirstNaming.ne_name (h : s.FirstNaming id before ns after) :
    ∀ other ∈ before, other.name ≠ (Scope.asic id).name := by
  intro other hother heq
  have hwritten : Scope.Names other.name (.asic id) := by
    rw [heq]
    exact Scope.names_name h.names.fits
  exact h.first other hother hwritten

/-- The overrides of the first namespace of a chip are found if its name is the one that is written for the
chip, and they are passed over otherwise. -/
theorem FirstNaming.namespaceOf?_eq_ite (h : s.FirstNaming id before ns after) :
    s.namespaceOf? (.asic id)
      = if ns.name = (Scope.asic id).name then some ns
        else after.find? (·.name == (Scope.asic id).name) := by
  have hbefore : before.find? (·.name == (Scope.asic id).name) = none := by
    simpa using h.ne_name
  rw [namespaceOf?_eq, h.split, List.find?_append, hbefore, Option.none_or, List.find?_cons]
  by_cases hname : ns.name = (Scope.asic id).name
  · rw [if_pos hname, hname, beq_self_eq_true]
  · rw [if_neg hname, beq_false_of_ne hname]

theorem FirstNaming.override (h : s.FirstNaming id before ns after) (hname : ns'.name = ns.name) :
    (s.withNamespaces (before ++ ns' :: after)).FirstNaming id before ns' after :=
  ⟨rfl, hname ▸ h.names, h.first⟩

/-- The check of settings does not ask where the namespaces put their files. -/
theorem FirstNaming.check_override (h : s.FirstNaming id before ns after) (path : Option String) :
    (s.withNamespaces (before ++ { ns with configPath := path } :: after)).check = s.check := by
  have hnamespaces : (before ++ { ns with configPath := path } :: after).forM checkNamespace
      = s.namespaces.forM checkNamespace := by
    rw [h.split, List.forM_eq_forM, List.forM_append, List.forM_append]
    rfl
  simp only [check, withNamespaces, hnamespaces]

/-- The first namespace of a chip is followed, whatever it overrides, exactly if its name is the one that is
written for the chip. Otherwise a later namespace with that name is followed, and without one the settings of
the host. -/
theorem overrides_followed_iff (haccepted : s.check = .ok ()) (hchip : Scope.asic id ∈ s.scopes) :
    ∃ before ns after, s.FirstNaming id before ns after ∧
      ((∀ ns' s', ns'.name = ns.name → s' = s.withNamespaces (before ++ ns' :: after) →
          s'.check = .ok () → s'.places id = ns'.places s.store id) ↔
        ns.name = (Scope.asic id).name) ∧
      (ns.name ≠ (Scope.asic id).name →
        s.places id
          = ((after.find? (·.name == (Scope.asic id).name)).getD (.bare id)).places s.store id) := by
  obtain ⟨before, ns, after, hns⟩ := exists_firstNaming hchip
  refine ⟨before, ns, after, hns, ⟨fun hfollowed => ?_, ?_⟩, fun hname => ?_⟩
  · -- Of two overrides at most one is where a namespace leads that is passed over.
    by_contra hname
    have hplace (path : String) : ((after.find? (·.name == (Scope.asic id).name)).getD (.bare id)).places s.store id
        = NamespaceSettings.places { ns with configPath := some path } s.store id := by
      have hother : (s.withNamespaces (before ++ { ns with configPath := some path } :: after)).FirstNaming id
          before { ns with configPath := some path } after := hns.override rfl
      have hfollows := hfollowed { ns with configPath := some path } _ rfl rfl
        ((hns.check_override _).trans haccepted)
      rw [places_eq, hother.namespaceOf?_eq_ite, if_neg hname] at hfollows
      exact hfollows
    have hpaths := congrArg ChipPlaces.configPath ((hplace "").symm.trans (hplace "/"))
    exact absurd hpaths (by simp [NamespaceSettings.places])
  · rintro hname ns' s' hsame rfl -
    rw [places_eq, FirstNaming.namespaceOf?_eq_ite (hns.override hsame), if_pos (hsame.trans hname)]
    rfl
  · rw [places_eq, hns.namespaceOf?_eq_ite, if_neg hname]

/-- A switch with a chip whose first namespace has a leading zero in its name. -/
def paddedChip : Settings where
  multiAsic := true
  namespaces := [{ name := "asic00", configPath := some "/tmp/chip.json" }]

theorem overrides_followed_iff_paddedChip :
    paddedChip.check = .ok () ∧ Scope.asic 0 ∈ paddedChip.scopes ∧
      ∃ before ns after, paddedChip.FirstNaming 0 before ns after ∧
        ((∀ ns' s', ns'.name = ns.name → s' = paddedChip.withNamespaces (before ++ ns' :: after) →
            s'.check = .ok () → s'.places 0 = ns'.places paddedChip.store 0) ↔
          ns.name = (Scope.asic 0).name) ∧
        (ns.name ≠ (Scope.asic 0).name →
          paddedChip.places 0
            = ((after.find? (·.name == (Scope.asic 0).name)).getD (.bare 0)).places paddedChip.store 0) := by
  have haccepted : paddedChip.check = .ok () := by decide +kernel
  have hchip : Scope.asic 0 ∈ paddedChip.scopes := by decide +kernel
  exact ⟨haccepted, hchip, overrides_followed_iff haccepted hchip⟩

/-- The first namespace of a chip may say where its configuration is, and another file is used. -/
theorem exists_override_ignored :
    ¬ ∀ (s : Settings) (id : Nat) (before : List NamespaceSettings) (ns : NamespaceSettings)
      (after : List NamespaceSettings), s.check = .ok () → s.multiAsic = true → Scope.asic id ∈ s.scopes →
      s.FirstNaming id before ns after → s.places id = ns.places s.store id := by
  intro hall
  have haccepted : paddedChip.check = .ok () := by decide +kernel
  have hchip : Scope.asic 0 ∈ paddedChip.scopes := by decide +kernel
  have hfirst : paddedChip.FirstNaming 0 [] { name := "asic00", configPath := some "/tmp/chip.json" } [] :=
    ⟨rfl, .chip 1 0 (by decide), nofun⟩
  have hplaces := congrArg ChipPlaces.configPath (hall _ _ _ _ _ haccepted rfl hchip hfirst)
  exact absurd hplaces (by decide +kernel)

end Settings

end ConfigUpdate
