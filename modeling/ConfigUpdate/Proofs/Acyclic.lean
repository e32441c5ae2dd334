import Mathlib.Data.Set.Finite.Lemmas
import Mathlib.Order.WellFoundedSet

/-!
# Relations without cycles

A relation along which a rank descends has no cycle (`acyclic_of_rank`), and of finitely many things one has no
successor among them along a relation without cycles (`exists_extremal`).
-/

namespace ConfigUpdate

variable {α β : Type} {r : α → α → Prop}

theorem acyclic_of_rank [Preorder β] (rank : α → β) (h : ∀ a b, r a b → rank b < rank a) (a : α) :
    ¬ Relation.TransGen r a a := by
  intro hcycle
  have hrank : ∀ {b}, Relation.TransGen r a b → rank b < rank a := by
    intro b hb
    induction hb with
    | single hab => exact h _ _ hab
    | tail _ hbc ih => exact (h _ _ hbc).trans ih
  exact lt_irrefl _ (hrank hcycle)

/-- Of finitely many things that have a property one has no successor with it, where successors form no
cycle. -/
theorem exists_extremal (hr : ∀ a, ¬ Relation.TransGen r a a) {p : α → Prop}
    (hfinite : ∃ all : List α, ∀ a, p a → a ∈ all) (h : ∃ a, p a) : ∃ a, p a ∧ ∀ b, p b → ¬ r a b := by
  obtain ⟨all, hall⟩ := hfinite
  have hset : {a | p a}.Finite := (List.finite_toSet all).subset hall
  have : IsStrictOrder α (fun a b => Relation.TransGen r b a) :=
    { irrefl := hr, trans := fun a b c hab hbc => hbc.trans hab }
  obtain ⟨a, -, hmin⟩ := (hset.wellFoundedOn (r := fun a b => Relation.TransGen r b a)).has_min
    Set.univ ⟨⟨h.choose, h.choose_spec⟩, trivial⟩
  exact ⟨a, a.2, fun b hb hab => hmin ⟨b, hb⟩ trivial (.single hab)⟩

end ConfigUpdate
