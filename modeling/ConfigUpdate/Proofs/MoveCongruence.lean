import ConfigUpdate.Proofs.ObjectStep

/-!
# Moves respect equality

On equal trees a move either fails twice or makes equal trees: `Move.sameOption_step`. The reason for a
failure may be worded differently, since equal numbers can be written differently.
-/

namespace ConfigUpdate

namespace Value

/-! ## Containers -/

theorem sameItems_length {xs ys : List Value} (h : sameItems xs ys = true) : xs.length = ys.length := by
  induction xs generalizing ys with
  | nil => cases ys <;> first | rfl | cases h
  | cons x xs ih =>
    cases ys with
    | nil => cases h
    | cons y ys =>
      obtain ⟨-, h⟩ := Bool.and_eq_true_iff.1 h
      rw [List.length_cons, List.length_cons, ih h]

theorem sameOption_getElem? {xs ys : List Value} (h : sameItems xs ys = true) (i : Nat) :
    SameOption xs[i]? ys[i]? := by
  induction xs generalizing ys i with
  | nil =>
    cases ys with
    | nil => trivial
    | cons y ys => cases h
  | cons x xs ih =>
    cases ys with
    | nil => cases h
    | cons y ys =>
      obtain ⟨hxy, h⟩ := sameItems_cons.1 h
      cases i with
      | zero => exact hxy
      | succ i => exact ih h i

theorem sameItems_set {xs ys : List Value} {x y : Value} (h : sameItems xs ys = true)
    (hxy : x.same y = true) (i : Nat) : sameItems (xs.set i x) (ys.set i y) = true := by
  induction xs generalizing ys i with
  | nil => cases ys <;> first | rfl | cases h
  | cons z xs ih =>
    cases ys with
    | nil => cases h
    | cons w ys =>
      obtain ⟨hzw, h⟩ := sameItems_cons.1 h
      cases i with
      | zero => exact sameItems_cons.2 ⟨hxy, h⟩
      | succ i => exact sameItems_cons.2 ⟨hzw, ih h i⟩

theorem sameItems_insertIdx {xs ys : List Value} {x y : Value} (h : sameItems xs ys = true)
    (hxy : x.same y = true) (i : Nat) : sameItems (xs.insertIdx i x) (ys.insertIdx i y) = true := by
  induction i generalizing xs ys with
  | zero => exact sameItems_cons.2 ⟨hxy, h⟩
  | succ i ih =>
    cases xs with
    | nil => cases ys <;> first | rfl | cases h
    | cons z xs =>
      cases ys with
      | nil => cases h
      | cons w ys =>
        obtain ⟨hzw, h⟩ := sameItems_cons.1 h
        exact sameItems_cons.2 ⟨hzw, ih h⟩

theorem sameItems_eraseIdx {xs ys : List Value} (h : sameItems xs ys = true) (i : Nat) :
    sameItems (xs.eraseIdx i) (ys.eraseIdx i) = true := by
  induction xs generalizing ys i with
  | nil => cases ys <;> first | rfl | cases h
  | cons z xs ih =>
    cases ys with
    | nil => cases h
    | cons w ys =>
      obtain ⟨hzw, h⟩ := sameItems_cons.1 h
      cases i with
      | zero => exact h
      | succ i => exact sameItems_cons.2 ⟨hzw, ih h i⟩

theorem sameMembers_insert {ms ns : List (String × Value)} {x y : Value}
    (h : sameMembers ms ns = true) (hxy : x.same y = true) (key : String) :
    sameMembers (Dictionary.insert ms key x) (Dictionary.insert ns key y) = true := by
  induction ms generalizing ns with
  | nil =>
    cases ns with
    | nil => exact sameMembers_cons.2 ⟨rfl, hxy, rfl⟩
    | cons f ns => cases h
  | cons e ms ih =>
    cases ns with
    | nil => cases h
    | cons f ns =>
      obtain ⟨k, v⟩ := e
      obtain ⟨l, w⟩ := f
      obtain ⟨rfl, hvw, hrest⟩ := sameMembers_cons.1 h
      unfold Dictionary.insert
      split
      · exact sameMembers_cons.2 ⟨rfl, hxy, hrest⟩
      · split
        · exact sameMembers_cons.2 ⟨rfl, hxy, h⟩
        · exact sameMembers_cons.2 ⟨rfl, hvw, ih hrest⟩

theorem sameMembers_erase {ms ns : List (String × Value)} (h : sameMembers ms ns = true)
    (key : String) : sameMembers (Dictionary.erase ms key) (Dictionary.erase ns key) = true := by
  induction ms generalizing ns with
  | nil => cases ns <;> first | rfl | cases h
  | cons e ms ih =>
    cases ns with
    | nil => cases h
    | cons f ns =>
      obtain ⟨k, v⟩ := e
      obtain ⟨l, w⟩ := f
      obtain ⟨rfl, hvw, hrest⟩ := sameMembers_cons.1 h
      unfold Dictionary.erase
      split
      · exact hrest
      · exact sameMembers_cons.2 ⟨rfl, hvw, ih hrest⟩

/-! ## Results -/

theorem sameOption_iff {o o' : Option Value} :
    SameOption o o' ↔ (o = none ∧ o' = none) ∨ ∃ v w, o = some v ∧ o' = some w ∧ v.same w = true := by
  cases o <;> cases o' <;> simp [SameOption]

/-- Functions that respect equality, applied to equal results. -/
theorem SameOption.bind {o o' : Option Value} {f g : Value → Option Value} (h : SameOption o o')
    (hfg : ∀ v w, v.same w = true → SameOption (f v) (g w)) : SameOption (o.bind f) (o'.bind g) := by
  obtain ⟨rfl, rfl⟩ | ⟨v, w, rfl, rfl, hvw⟩ := sameOption_iff.1 h
  · trivial
  · exact hfg v w hvw

theorem SameOption.bind_eq {α : Type} {o o' : Option Value} {f g : Value → Option α}
    (h : SameOption o o') (hfg : ∀ v w, v.same w = true → f v = g w) : o.bind f = o'.bind g := by
  obtain ⟨rfl, rfl⟩ | ⟨v, w, rfl, rfl, hvw⟩ := sameOption_iff.1 h
  · rfl
  · exact hfg v w hvw

theorem SameOption.map {o o' : Option Value} {f g : Value → Value} (h : SameOption o o')
    (hfg : ∀ v w, v.same w = true → (f v).same (g w) = true) : SameOption (o.map f) (o'.map g) := by
  obtain ⟨rfl, rfl⟩ | ⟨v, w, rfl, rfl, hvw⟩ := sameOption_iff.1 h
  · trivial
  · exact hfg v w hvw

/-! ## Nodes -/

section

variable {v w : Value} (h : v.same w = true)

include h

theorem sameOption_child (step : Step) (location : String) :
    SameOption (v.child step location).toOption (w.child step location).toOption := by
  obtain ⟨s, t, rfl, rfl, -⟩ | ⟨xs, ys, rfl, rfl, hitems⟩ | ⟨ms, ns, rfl, rfl, hmembers⟩ :=
    same_cases h
  · trivial
  · simp only [child, toOption_bind, sameItems_length hitems]
    cases (step.position ys.length false location).toOption with
    | none => trivial
    | some i =>
      obtain ⟨hx, hy⟩ | ⟨c, d, hx, hy, hcd⟩ := sameOption_iff.1 (sameOption_getElem? hitems i)
      · simp [hx, hy, SameOption]
      · simpa [hx, hy, SameOption] using hcd
  · obtain ⟨hm, hn⟩ | ⟨c, d, hm, hn, hcd⟩ := sameOption_iff.1 (sameOption_get? hmembers step.name)
    · simp [child, hm, hn, SameOption]
    · simpa [child, hm, hn, SameOption] using hcd

theorem same_setChild {c d : Value} (hcd : c.same d = true) (step : Step) :
    (v.setChild step c).same (w.setChild step d) = true := by
  obtain ⟨s, t, rfl, rfl, -⟩ | ⟨xs, ys, rfl, rfl, hitems⟩ | ⟨ms, ns, rfl, rfl, hmembers⟩ :=
    same_cases h
  · exact h
  · simp only [setChild, sameItems_length hitems]
    cases step.position ys.length false "" with
    | error e => exact h
    | ok i => exact sameItems_set hitems hcd i
  · exact sameMembers_insert hmembers hcd step.name

theorem sameOption_insertChild (step : Step) (new : Value) (location : String) :
    SameOption ((insertChild step new location v).toOption.map Prod.fst)
      ((insertChild step new location w).toOption.map Prod.fst) := by
  obtain ⟨s, t, rfl, rfl, -⟩ | ⟨xs, ys, rfl, rfl, hitems⟩ | ⟨ms, ns, rfl, rfl, hmembers⟩ :=
    same_cases h
  · trivial
  · simp only [insertChild, toOption_bind, sameItems_length hitems]
    cases (step.position ys.length true location).toOption with
    | none => trivial
    | some i => exact sameItems_insertIdx hitems (same_refl new) i
  · exact sameMembers_insert hmembers (same_refl new) step.name

theorem sameOption_removeChild (step : Step) (location : String) :
    SameOption ((removeChild step location v).toOption.map Prod.fst)
      ((removeChild step location w).toOption.map Prod.fst) := by
  obtain ⟨s, t, rfl, rfl, -⟩ | ⟨xs, ys, rfl, rfl, hitems⟩ | ⟨ms, ns, rfl, rfl, hmembers⟩ :=
    same_cases h
  · trivial
  · simp only [removeChild, toOption_bind, sameItems_length hitems]
    cases (step.position ys.length false location).toOption with
    | none => trivial
    | some i =>
      obtain ⟨hx, hy⟩ | ⟨c, d, hx, hy, -⟩ := sameOption_iff.1 (sameOption_getElem? hitems i)
      · simp [hx, hy, SameOption]
      · simp only [Option.bind_some, hx, hy]
        exact sameItems_eraseIdx hitems i
  · obtain ⟨hm, hn⟩ | ⟨c, d, hm, hn, -⟩ := sameOption_iff.1 (sameOption_get? hmembers step.name)
    · simp [removeChild, hm, hn, SameOption]
    · simp only [removeChild, hm, hn]
      exact sameMembers_erase hmembers step.name

end

theorem sameOption_resolveFrom {v w : Value} (h : v.same w = true) (location : String) (p : Pointer) :
    SameOption (resolveFrom location v p).toOption (resolveFrom location w p).toOption := by
  induction p generalizing v w location with
  | nil => exact h
  | cons s p ih =>
    simp only [resolveFrom, toOption_bind]
    exact (sameOption_child h s location).bind fun c d hcd => ih hcd _

theorem sameOption_alterFrom {α : Type} {f : String → Value → Except ResolveError (Value × α)}
    (hf : ∀ location v w, v.same w = true →
      SameOption ((f location v).toOption.map Prod.fst) ((f location w).toOption.map Prod.fst))
    {v w : Value} (h : v.same w = true) (location : String) (p : Pointer) :
    SameOption ((alterFrom location f v p).toOption.map Prod.fst)
      ((alterFrom location f w p).toOption.map Prod.fst) := by
  induction p generalizing v w location with
  | nil => exact hf location v w h
  | cons s p ih =>
    have hedit : ∀ u : Value, (alterFrom location f u (s :: p)).toOption.map Prod.fst
        = (u.child s location).toOption.bind fun c =>
          ((alterFrom (s.textBelow location) f c p).toOption.map Prod.fst).map (u.setChild s) := by
      intro u
      simp only [alterFrom, toOption_bind]
      cases (u.child s location).toOption with
      | none => rfl
      | some c =>
        simp only [Option.bind_some]
        cases (alterFrom (s.textBelow location) f c p).toOption <;> rfl
    rw [hedit, hedit]
    exact (sameOption_child h s location).bind fun c d hcd =>
      (ih hcd _).map fun c' d' hcd' => same_setChild h hcd' s

end Value

/-! ## Moves -/

namespace Move

open Value

variable {m : Move} {v w : Value}

theorem toOption_check_congr (h : v.same w = true) : (m.check v).toOption = (m.check w).toOption := by
  have hresolve : ∀ p, SameOption (v.resolve p).toOption (w.resolve p).toOption :=
    sameOption_resolveFrom h ""
  cases hpre : m.precondition with
  | equals e =>
    rw [toOption_check_equals hpre, toOption_check_equals hpre]
    refine (hresolve m.path).bind_eq fun c d hcd => ?_
    have hprior : (c == e) = (d == e) :=
      Bool.eq_iff_iff.2 ⟨same_trans (same_symm hcd), same_trans hcd⟩
    rw [hprior]
  | absent =>
    have hfound := (hresolve m.path).isSome_eq
    by_cases hp : m.path = []
    · have hcheck : ∀ u : Value, (m.check u).toOption
          = if (u.resolve m.path).toOption.isSome then none else some () := by
        intro u
        rw [← toOption_checkVacant]
        simp [check, hpre, hp, Pointer.parent?]
      rw [hcheck, hcheck, hfound]
    · rw [toOption_check_absent hpre hp, toOption_check_absent hpre hp]
      refine (hresolve m.path.dropLast).bind_eq fun c d hcd => ?_
      rw [same_isScalar hcd, hfound]

theorem check_eq_ok_iff_of_same (h : v.same w = true) : m.check v = .ok () ↔ m.check w = .ok () := by
  have hcheck := toOption_check_congr (m := m) h
  cases hv : m.check v <;> cases hw : m.check w <;> simp_all [Except.toOption]

theorem sameOption_run (h : v.same w = true) : SameOption (m.run v).toOption (m.run w).toOption := by
  have hedit : ∀ {α : Type} (f : String → Value → Except ResolveError (Value × α)) (p : Pointer),
      (∀ location c d, c.same d = true →
        SameOption ((f location c).toOption.map Prod.fst) ((f location d).toOption.map Prod.fst)) →
      SameOption ((alterFrom "" f v p).toOption.map Prod.fst)
        ((alterFrom "" f w p).toOption.map Prod.fst) :=
    fun f p hf => sameOption_alterFrom hf h "" p
  cases hk : m.kind with
  | add =>
    simp only [run, hk, insertAt]
    cases m.path.getLast? with
    | none => exact same_refl _
    | some last =>
      simp only [toOption_fst]
      exact hedit _ _ fun location c d hcd => sameOption_insertChild hcd last _ location
  | remove =>
    simp only [run, hk, removeAt]
    cases m.path.getLast? with
    | none => exact same_refl _
    | some last =>
      simp only [toOption_fst]
      exact hedit _ _ fun location c d hcd => sameOption_removeChild hcd last location
  | replace =>
    simp only [run, hk, replaceAt, toOption_fst]
    exact hedit _ _ fun location c d hcd => same_refl _

/-- On equal trees a move fails twice or makes equal trees. -/
theorem sameOption_step (h : v.same w = true) :
    SameOption (m.step v).toOption (m.step w).toOption := by
  rw [toOption_step, toOption_step, toOption_check_congr h]
  cases (m.check w).toOption with
  | none => trivial
  | some u => exact sameOption_run h

end Move

end ConfigUpdate
