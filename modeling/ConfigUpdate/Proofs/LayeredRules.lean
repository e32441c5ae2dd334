import ConfigUpdate.Plan.Oracle
import ConfigUpdate.Proofs.Acyclic

/-!
# Rules that put the tables in layers

Rules are layered if a table never depends on itself through other tables and no field names entries of
its own table. Then any finite choice of tables has a first one and a last one. The rules of a switch are
layered: `layered_switch`.
-/

namespace ConfigUpdate

namespace ReferenceRules

/-- Entries of one table need or name entries of the other one. -/
def DependsOn (rules : ReferenceRules) (table other : String) : Prop :=
  (∃ rule ∈ rules.parents, rule.table = table ∧ rule.parentTable = other) ∨
    ∃ rule ∈ rules.references, rule.table = table ∧ rule.targetTable = other

/-- The rules form no cycle of different tables, and no field names entries of its own table. -/
structure Layered (rules : ReferenceRules) : Prop where
  acyclic : ∀ table,
    ¬ Relation.TransGen (fun a b => a ≠ b ∧ rules.DependsOn a b) table table
  apart : ∀ rule ∈ rules.references, rule.table ≠ rule.targetTable

/-- Rules are layered if every table has a higher rank than the other tables on which it depends. -/
theorem layered_of_rank {rules : ReferenceRules} (rank : String → Nat)
    (hparents : ∀ rule ∈ rules.parents, rule.table ≠ rule.parentTable →
      rank rule.parentTable < rank rule.table)
    (hreferences : ∀ rule ∈ rules.references, rank rule.targetTable < rank rule.table) :
    rules.Layered := by
  have hstep : ∀ a b, a ≠ b ∧ rules.DependsOn a b → rank b < rank a := by
    rintro a b ⟨hne, ⟨rule, hrule, rfl, rfl⟩ | ⟨rule, hrule, rfl, rfl⟩⟩
    · exact hparents rule hrule hne
    · exact hreferences rule hrule
  constructor
  · exact acyclic_of_rank rank hstep
  · intro rule hrule heq
    have hlt := hreferences rule hrule
    rw [heq] at hlt
    exact Nat.lt_irrefl _ hlt

/-- The layers of the tables of a switch: pools and the like, profiles, and what uses them. -/
def switchRank (table : String) : Nat :=
  if table ∈ ["VLAN", "PORTCHANNEL", "BUFFER_POOL", "SCHEDULER", "WRED_PROFILE", "DSCP_TO_TC_MAP",
    "TC_TO_QUEUE_MAP", "TC_TO_PRIORITY_GROUP_MAP", "MAP_PFC_PRIORITY_TO_QUEUE"] then 0
  else if table = "BUFFER_PROFILE" then 1
  else 2

theorem layered_switch : switch.Layered :=
  layered_of_rank switchRank (by decide) (by decide)

end ReferenceRules

end ConfigUpdate
