import ConfigUpdate.Proofs.Leaves
import ConfigUpdate.Proofs.ValueEquality

/-!
# Trees whose numbers are integers

Equality of numbers is coarser than identity for doubles alone, so a tree without doubles equals no other
tree than itself: `Value.Integral.eq_of_same`.
-/

namespace ConfigUpdate

/-- A number in the leaf is one of the integers that are kept as such. -/
def Scalar.Integral : Scalar → Prop
  | .number (.integer i) => Number.fitsInteger i = true
  | .number (.double _) => False
  | _ => True

theorem Scalar.Integral.eq_of_same {s t : Scalar} (h : s.Integral) (hsame : s.same t = true) : s = t := by
  cases s with
  | number x =>
    cases x with
    | double x => exact h.elim
    | integer i =>
      cases t with
      | number y =>
        cases y with
        | double y => cases hsame
        | integer j =>
          have hij : i = j := by simpa [Scalar.same, Number.same] using hsame
          rw [hij]
      | _ => cases hsame
  | _ => cases t <;> simp_all [Scalar.same]

namespace Value

mutual

/-- Every number in the tree is an integer. -/
def Integral : Value → Prop
  | scalar s => s.Integral
  | array xs => IntegralItems xs
  | object ms => IntegralMembers ms

/-- Every number in the items is an integer. -/
def IntegralItems : List Value → Prop
  | [] => True
  | x :: xs => x.Integral ∧ IntegralItems xs

/-- Every number in the values of members is an integer. -/
def IntegralMembers : List (String × Value) → Prop
  | [] => True
  | (_, x) :: ms => x.Integral ∧ IntegralMembers ms

end

mutual

/-- Whether every number in a tree is an integer can be computed. -/
def decideIntegral : ∀ v : Value, Decidable v.Integral
  | scalar (.number (.integer i)) => inferInstanceAs (Decidable (Number.fitsInteger i = true))
  | scalar (.number (.double _)) => .isFalse fun h => h
  | scalar .null | scalar (.bool _) | scalar (.string _) => .isTrue trivial
  | array xs => decideIntegralItems xs
  | object ms => decideIntegralMembers ms

/-- Whether every number in items is an integer can be computed. -/
def decideIntegralItems : ∀ xs : List Value, Decidable (IntegralItems xs)
  | [] => .isTrue trivial
  | x :: xs =>
    have := decideIntegral x
    have := decideIntegralItems xs
    inferInstanceAs (Decidable (x.Integral ∧ IntegralItems xs))

/-- Whether every number in the values of members is an integer can be computed. -/
def decideIntegralMembers : ∀ ms : List (String × Value), Decidable (IntegralMembers ms)
  | [] => .isTrue trivial
  | (_, x) :: ms =>
    have := decideIntegral x
    have := decideIntegralMembers ms
    inferInstanceAs (Decidable (x.Integral ∧ IntegralMembers ms))

end

instance : DecidablePred Integral := decideIntegral

theorem integralItems_iff {xs : List Value} : IntegralItems xs ↔ ∀ x ∈ xs, x.Integral := by
  induction xs with
  | nil => simp [IntegralItems]
  | cons x xs ih => simp [IntegralItems, ih]

theorem integralMembers_iff {ms : List (String × Value)} :
    IntegralMembers ms ↔ ∀ e ∈ ms, e.2.Integral := by
  induction ms with
  | nil => simp [IntegralMembers]
  | cons e ms ih =>
    obtain ⟨k, v⟩ := e
    simp [IntegralMembers, ih]

mutual

theorem Integral.leaves : ∀ {v : Value}, v.Integral → v.Leaves Scalar.Integral
  | .scalar _, h => h
  | .array _, h => IntegralItems.leaves h
  | .object _, h => IntegralMembers.leaves h

theorem IntegralItems.leaves : ∀ {xs : List Value}, IntegralItems xs → LeavesItems Scalar.Integral xs
  | [], _ => trivial
  | _ :: _, h => ⟨h.1.leaves, IntegralItems.leaves h.2⟩

theorem IntegralMembers.leaves :
    ∀ {ms : List (String × Value)}, IntegralMembers ms → LeavesMembers Scalar.Integral ms
  | [], _ => trivial
  | _ :: _, h => ⟨h.1.leaves, IntegralMembers.leaves h.2⟩

end

mutual

/-- A tree without doubles equals no other tree. -/
theorem Integral.eq_of_same : ∀ {v w : Value}, v.Integral → v.same w = true → v = w
  | .scalar s, .scalar t, h, hsame => by
    simp only [same] at hsame
    rw [Scalar.Integral.eq_of_same h hsame]
  | .array xs, .array ys, h, hsame => by
    simp only [same] at hsame
    rw [IntegralItems.eq_of_same h hsame]
  | .object ms, .object ns, h, hsame => by
    simp only [same] at hsame
    rw [IntegralMembers.eq_of_same h hsame]

theorem IntegralItems.eq_of_same : ∀ {xs ys : List Value}, IntegralItems xs → sameItems xs ys = true → xs = ys
  | [], [], _, _ => rfl
  | x :: xs, y :: ys, h, hsame => by
    simp only [sameItems, Bool.and_eq_true] at hsame
    rw [Integral.eq_of_same h.1 hsame.1, IntegralItems.eq_of_same h.2 hsame.2]

theorem IntegralMembers.eq_of_same : ∀ {ms ns : List (String × Value)},
    IntegralMembers ms → sameMembers ms ns = true → ms = ns
  | [], [], _, _ => rfl
  | (k, x) :: ms, (l, y) :: ns, h, hsame => by
    simp only [sameMembers, Bool.and_eq_true, beq_iff_eq] at hsame
    rw [hsame.1.1, Integral.eq_of_same h.1 hsame.1.2, IntegralMembers.eq_of_same h.2 hsame.2]

end

end Value

end ConfigUpdate
