import ConfigUpdate.Proofs.AcceptedMoves

/-!
# Ports stay within their limits

An accepted update gives a port only a speed and an error correction that the port supports:
`Gate.changed_port_supported`. It does not matter whether the field has come alone, with its port, with the
table or with the whole configuration.
-/

namespace ConfigUpdate

namespace PortCheck

/-- Whether a speed is one of a list; both are read as numbers, and other items do not count. -/
def SupportsSpeed (list speed : String) : Prop :=
  ∃ n, Text.unsigned? speedBound (Text.trim speed) = some n ∧
    ∃ item ∈ Text.commaItems list, Text.unsigned? speedBound item = some n

/-- Whether a mode of error correction is one of those that are published or, without a list, of the default
ones. -/
def SupportsMode : Option String → String → Prop
  | none, mode => mode ∈ defaultModes
  | some list, mode => list ≠ "N/A" ∧ mode ≠ "" ∧ mode ∈ Text.commaItems list

theorem speedFault?_eq_none_iff {list : String} (hlist : Text.trim list ≠ "") (port speed : String) :
    speedFault? (some list) port speed = none ↔ SupportsSpeed list speed := by
  have hspeeds : speeds? (some list)
      = some ((Text.commaItems list).filterMap (Text.unsigned? speedBound)) := if_neg hlist
  rw [speedFault?, hspeeds]
  cases hn : Text.unsigned? speedBound (Text.trim speed) with
  | none => simp [SupportsSpeed, hn]
  | some n =>
    have hmem : n ∈ (Text.commaItems list).filterMap (Text.unsigned? speedBound) ↔
        SupportsSpeed list speed := by
      simp [SupportsSpeed, hn]
    rw [← hmem]
    simp

theorem mem_modes_iff (published : Option String) (mode : String) :
    mode ∈ modes published ↔ SupportsMode published mode := by
  cases published with
  | none => exact Iff.rfl
  | some list =>
    by_cases hna : list = "N/A"
    · subst hna
      simp [modes, SupportsMode]
    · have hmodes : modes (some list) = (Text.commaItems list).filter (· != "") := by
        simp [modes]
      rw [hmodes, List.mem_filter]
      simp [SupportsMode, hna, and_comm]

theorem modeFault?_eq_none_iff (published : Option String) (port mode : String) :
    modeFault? published port mode = none ↔ SupportsMode published (Text.trim mode) := by
  rw [← mem_modes_iff, modeFault?]
  simp

variable {chassis : Bool} {state : DeviceState} {scope : Scope} {e : Edit} {port : String} {s : Scalar}

theorem published_eq_ok_iff {field : String} {text : Option String} :
    published state scope port field = .ok text ↔ state scope publishedTable port field = .ok text := by
  rw [published]
  cases state scope publishedTable port field <;> simp

theorem refuseFor_eq_ok_iff {field : String} {fault : Option String} :
    refuseFor e port field fault = .ok () ↔ fault = none := by
  cases fault <;> simp [refuseFor]

theorem supportsSpeed_of_checkField {list : String}
    (h : checkField false state scope e ⟨port, "speed", some (.scalar s)⟩ = .ok ())
    (hstate : state scope publishedTable port "supported_speeds" = .ok (some list))
    (hlist : Text.trim list ≠ "") : SupportsSpeed list s.fieldText := by
  obtain ⟨text, htext, hfault⟩ := exists_of_bind_eq_ok h
  rw [published_eq_ok_iff, hstate] at htext
  cases htext
  exact (speedFault?_eq_none_iff hlist port _).1 (refuseFor_eq_ok_iff.1 hfault)

theorem supportsMode_of_checkField
    (h : checkField chassis state scope e ⟨port, "fec", some (.scalar s)⟩ = .ok ()) :
    ∃ text, state scope publishedTable port "supported_fecs" = .ok text ∧
      SupportsMode text (Text.trim s.fieldText) := by
  obtain ⟨text, htext, hfault⟩ := exists_of_bind_eq_ok h
  exact ⟨text, published_eq_ok_iff.1 htext,
    (modeFault?_eq_none_iff text port _).1 (refuseFor_eq_ok_iff.1 hfault)⟩

end PortCheck

namespace Gate

/-- A field of a port with a new value has passed the check. -/
theorem exists_checkField_of_changed {g : Gate} {scope : Scope} {current target : Value}
    (hc : current.WellFormed) (ht : target.WellFormed)
    (hok : g.checkMoves scope (diff current target) = .ok ()) {port field : String} {s : Scalar}
    (hs : target.memberAt ["PORT", port, field] = some (.scalar s))
    (hchanged : ¬ Value.SameOption (current.memberAt ["PORT", port, field]) (some (.scalar s))) :
    ∃ e, PortCheck.checkField g.platform.chassis g.state scope e ⟨port, field, some (.scalar s)⟩
      = .ok () := by
  have hdiffer : current.Differ target ["PORT", port, field] := by
    apply Value.Differ.of_not_object
    · rwa [hs]
    · rw [hs]
      exact nofun
  -- Whatever move brings the field, the gate has looked at an edit that touches it.
  obtain ⟨m, hm, hp⟩ := exists_move_above hc ht hdiffer
  obtain ⟨e, -, hverb, -, hcheck, htable, htouch⟩ := exists_touch hc ht hok hm hp hs
  have hport : PortCheck.check g.platform.chassis g.state scope e = .ok () := by
    refine (checkBelowRoot_eq_ok_iff.1 hcheck).2 .port ?_
    rw [htable]
    exact List.mem_singleton_self _
  rw [PortCheck.check, if_neg hverb, forM_eq_ok_iff] at hport
  exact ⟨e, hport _ htouch⟩

/-- After an accepted update, a port with another speed than before has one that it supports, if it publishes
any and is not part of a chassis, and a port with another error correction has one that it supports. -/
theorem changed_port_supported (g : Gate) (scope : Scope) (current target : Value) (hc : current.WellFormed)
    (ht : target.WellFormed) (hok : g.checkMoves scope (diff current target) = .ok ()) (port : String) :
    (∀ s, target.memberAt ["PORT", port, "speed"] = some (.scalar s) →
      ¬ Value.SameOption (current.memberAt ["PORT", port, "speed"]) (some (.scalar s)) →
      g.platform.chassis = false →
      ∀ list, g.state scope "PORT_TABLE" port "supported_speeds" = .ok (some list) → Text.trim list ≠ "" →
      PortCheck.SupportsSpeed list s.fieldText) ∧
    (∀ s, target.memberAt ["PORT", port, "fec"] = some (.scalar s) →
      ¬ Value.SameOption (current.memberAt ["PORT", port, "fec"]) (some (.scalar s)) →
      ∃ published, g.state scope "PORT_TABLE" port "supported_fecs" = .ok published ∧
        PortCheck.SupportsMode published (Text.trim s.fieldText)) := by
  constructor
  · intro s hs hchanged hchassis list hstate hlist
    obtain ⟨e, he⟩ := exists_checkField_of_changed hc ht hok hs hchanged
    rw [hchassis] at he
    exact PortCheck.supportsSpeed_of_checkField he hstate hlist
  · intro s hs hchanged
    obtain ⟨e, he⟩ := exists_checkField_of_changed hc ht hok hs hchanged
    exact PortCheck.supportsMode_of_checkField he

/-- A port that publishes two speeds, and no modes of error correction. -/
def twoSpeeds : PublishedTrees :=
  [(.host, .object [("PORT_TABLE", .object [("Ethernet0", .object
    [("supported_speeds", .ofString "40000, 100000")])])])]

/-- A port with a speed and a mode of error correction. -/
def fastPort : Value :=
  .object [("PORT", .object [("Ethernet0", .object [("fec", .ofString "rs"), ("speed", .ofString "100000")])])]

/-- A port that comes with its table. -/
theorem changed_port_supported_fastPort :
    (onFirstFamily twoSpeeds).checkMoves .host (diff .empty fastPort) = .ok () ∧
      PortCheck.SupportsSpeed "40000, 100000" "100000" ∧
      ∃ published,
        (onFirstFamily twoSpeeds).state .host "PORT_TABLE" "Ethernet0" "supported_fecs" = .ok published ∧
        PortCheck.SupportsMode published (Text.trim "rs") := by
  have hc : Value.empty.WellFormed := by decide
  have ht : fastPort.WellFormed := by decide
  have hok : (onFirstFamily twoSpeeds).checkMoves .host (diff .empty fastPort) = .ok () := rfl
  obtain ⟨hspeed, hfec⟩ :=
    changed_port_supported (onFirstFamily twoSpeeds) .host .empty fastPort hc ht hok "Ethernet0"
  exact ⟨hok, hspeed (.string "100000") rfl id rfl "40000, 100000" rfl (by decide),
    hfec (.string "rs") rfl id⟩

end Gate

end ConfigUpdate
