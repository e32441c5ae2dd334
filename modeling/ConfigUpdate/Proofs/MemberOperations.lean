import ConfigUpdate.Patch.Operation
import ConfigUpdate.Proofs.ObjectStep

/-!
# Operations below a member

An operation all of whose paths lead through one member of an object does to the object what it does to the
member without the first step of its paths. The one exception is the removal of the member itself, which leaves
no empty object behind: `Operation.toOption_run_object`.
-/

namespace ConfigUpdate

/-! ## Edits -/

theorem Pointer.isBelow_cons {s t : Step} (h : s.name = t.name) (p q : Pointer) :
    isBelow (s :: p) (t :: q) = isBelow p q := by
  simp [isBelow, startsWith, h]

namespace Value

variable {ms : List (String × Value)} {s : Step} {c : Value}

theorem toOption_insertAt_object (hc : Dictionary.get? ms s.name = some c) (p : Pointer) (new : Value) :
    ((object ms).insertAt (s :: p) new).toOption
      = (c.insertAt p new).toOption.map fun c' => object (Dictionary.insert ms s.name c') := by
  cases p with
  | nil => rfl
  | cons s' p =>
    have hlast : (s :: s' :: p).getLast? = (s' :: p).getLast? := rfl
    have hdrop : (s :: s' :: p).dropLast = s :: (s' :: p).dropLast := rfl
    obtain ⟨last, hl⟩ : ∃ last, (s' :: p).getLast? = some last :=
      ⟨_, List.getLast?_eq_some_getLast (List.cons_ne_nil s' p)⟩
    have hedit := fst_alterFrom_cons (toOption_insertChild last new) ms s (s' :: p).dropLast
    rw [hc, Option.bind_some] at hedit
    simp only [insertAt, hlast, hl, hdrop, toOption_fst]
    exact hedit

theorem toOption_removeAt_object (hc : Dictionary.get? ms s.name = some c) (s' : Step) (p : Pointer) :
    ((object ms).removeAt (s :: s' :: p)).toOption
      = (c.removeAt (s' :: p)).toOption.map fun r => (object (Dictionary.insert ms s.name r.1), r.2) := by
  have hlast : (s :: s' :: p).getLast? = (s' :: p).getLast? := rfl
  have hdrop : (s :: s' :: p).dropLast = s :: (s' :: p).dropLast := rfl
  obtain ⟨last, hl⟩ : ∃ last, (s' :: p).getLast? = some last :=
    ⟨_, List.getLast?_eq_some_getLast (List.cons_ne_nil s' p)⟩
  have hedit := toOption_alterFrom_cons (toOption_removeChild last) ms s (s' :: p).dropLast
  rw [hc, Option.bind_some] at hedit
  simp only [removeAt, hlast, hl, hdrop]
  exact hedit

theorem toOption_removeAt_member (hc : Dictionary.get? ms s.name = some c) :
    ((object ms).removeAt [s]).toOption = some (object (Dictionary.erase ms s.name), c) := by
  simp [removeAt, alterFrom, removeChild, hc]

theorem insertAt_member (ms : List (String × Value)) (s : Step) (new : Value) :
    (object ms).insertAt [s] new = .ok (object (Dictionary.insert ms s.name new)) := rfl

theorem toOption_replaceAt_object (hc : Dictionary.get? ms s.name = some c) (p : Pointer) (new : Value) :
    ((object ms).replaceAt (s :: p) new).toOption
      = (c.replaceAt p new).toOption.map fun r => (object (Dictionary.insert ms s.name r.1), r.2) := by
  have hedit := toOption_alterFrom_cons (f := fun _ old => .ok (new, old)) (fun _ _ _ => rfl) ms s p
  rw [hc, Option.bind_some] at hedit
  exact hedit

theorem toOption_resolve_object (hc : Dictionary.get? ms s.name = some c) (p : Pointer) :
    ((object ms).resolve (s :: p)).toOption = (c.resolve p).toOption := by
  rw [toOption_resolve_cons, hc, Option.bind_some]

/-- A node is taken out and put in again. Where the member itself is taken, it is put back as it was. -/
theorem toOption_move_object {t : Step} (hms : Dictionary.Sorted ms) (hc : Dictionary.get? ms s.name = some c)
    (hname : t.name = s.name) (p q : Pointer) (hbelow : ¬ Pointer.isBelow p q = true) :
    (((object ms).removeAt (t :: q)).toOption.bind fun r => (r.1.insertAt (s :: p) r.2).toOption)
      = ((c.removeAt q).toOption.bind fun r => (r.1.insertAt p r.2).toOption).map
          fun c' => object (Dictionary.insert ms s.name c') := by
  have hct : Dictionary.get? ms t.name = some c := by rw [hname]; exact hc
  cases q with
  | nil =>
    -- The member is not moved into itself, so it is moved to where it is.
    have hroot : p = [] := by
      cases p with
      | nil => rfl
      | cons s' p => exact absurd rfl hbelow
    subst hroot
    have hback : ((object (Dictionary.erase ms t.name)).insertAt [s] c).toOption
        = some (object (Dictionary.insert ms s.name c)) := by
      rw [insertAt_member, hname, Dictionary.insert_erase hms]
      rfl
    rw [toOption_removeAt_member hct, Option.bind_some, hback]
    rfl
  | cons t' q =>
    rw [toOption_removeAt_object hct, hname]
    cases (c.removeAt (t' :: q)).toOption with
    | none => rfl
    | some r =>
      have hget : Dictionary.get? (Dictionary.insert ms s.name r.1) s.name = some r.1 := by
        rw [Dictionary.get?_insert, if_pos rfl]
      simp only [Option.map_some, Option.bind_some, toOption_insertAt_object hget, Dictionary.insert_insert]

end Value

/-! ## Operations -/

namespace Operation

variable {op : Operation} {name : String}

/-- The paths of the operation lead through a member. -/
structure StartsAt (op : Operation) (name : String) : Prop where
  path : ∃ s p, op.path = s :: p ∧ s.name = name
  source : ∀ q, op.source = some q → ∃ s p, q = s :: p ∧ s.name = name

/-- The operation as it looks from the member through which its paths lead. -/
def inside (op : Operation) : Operation :=
  { op with path := op.path.tail, source := op.source.map List.tail }

@[simp] theorem toOption_edited {α : Type} (x : Except ResolveError α) : (edited x).toOption = x.toOption := by
  cases x <;> rfl

theorem needValue_inside (op : Operation) : op.inside.needValue = op.needValue := rfl

/-- What an operation makes of an object is what it makes of the member through which its paths lead. -/
theorem toOption_run_object {ms : List (String × Value)} {c : Value} (hms : Dictionary.Sorted ms)
    (hop : op.StartsAt name) (hbare : ¬ (op.verb = .remove ∧ op.path.length = 1))
    (hc : Dictionary.get? ms name = some c) :
    (op.run (.object ms)).toOption
      = (op.inside.run c).toOption.map fun c' => .object (Dictionary.insert ms name c') := by
  obtain ⟨s, p, hp, rfl⟩ := hop.path
  have hinside : op.inside.path = p := by simp [inside, hp]
  have hverb : op.inside.verb = op.verb := rfl
  unfold run
  rw [hverb, hinside, hp]
  cases hv : op.verb with
  | add =>
    simp only [needValue_inside, toOption_bind, toOption_edited]
    cases op.needValue with
    | error e => rfl
    | ok v => exact Value.toOption_insertAt_object hc p v
  | remove =>
    have hlong : op.path.length ≠ 1 := fun hlength => hbare ⟨hv, hlength⟩
    cases p with
    | nil =>
      rw [hp] at hlong
      exact absurd rfl hlong
    | cons s' p =>
      simp only [toOption_fst, toOption_edited, Value.toOption_removeAt_object hc, Option.map_map]
      rfl
  | replace =>
    simp only [needValue_inside, toOption_bind, toOption_edited]
    cases op.needValue with
    | error e => rfl
    | ok v =>
      simp only [toOption_ok, Option.bind_some, Value.toOption_replaceAt_object hc]
      cases (c.replaceAt p v).toOption <;> rfl
  | move =>
    cases hsource : op.source with
    | none => simp [needSource, inside, hsource]
    | some q =>
      obtain ⟨t, q, rfl, hname⟩ := hop.source q hsource
      have hneed : op.needSource = .ok (t :: q) := by simp [needSource, hsource]
      have hneed' : op.inside.needSource = .ok q := by simp [needSource, inside, hsource]
      simp only [hneed, hneed', toOption_bind, toOption_ok, Option.bind_some,
        Pointer.isBelow_cons hname.symm]
      by_cases hbelow : Pointer.isBelow p q = true
      · rw [if_pos hbelow, if_pos hbelow]
        rfl
      · rw [if_neg hbelow, if_neg hbelow]
        simp only [toOption_bind, toOption_edited]
        exact Value.toOption_move_object hms hc hname p q hbelow
  | copy =>
    cases hsource : op.source with
    | none => simp [needSource, inside, hsource]
    | some q =>
      obtain ⟨t, q, rfl, hname⟩ := hop.source q hsource
      have hneed : op.needSource = .ok (t :: q) := by simp [needSource, hsource]
      have hneed' : op.inside.needSource = .ok q := by simp [needSource, inside, hsource]
      have hct : Dictionary.get? ms t.name = some c := by rw [hname]; exact hc
      simp only [hneed, hneed', toOption_bind, toOption_ok, toOption_edited, Option.bind_some,
        Value.toOption_resolve_object hct]
      cases (c.resolve q).toOption with
      | none => rfl
      | some copied => exact Value.toOption_insertAt_object hc p copied
  | test =>
    simp only [needValue_inside, toOption_bind, toOption_edited]
    cases op.needValue with
    | error e => rfl
    | ok expected =>
      simp only [toOption_ok, Option.bind_some, Value.toOption_resolve_object hc]
      cases (c.resolve p).toOption with
      | none => rfl
      | some found =>
        simp only [Option.bind_some]
        by_cases htest : (found == expected) = true
        · rw [if_pos htest, if_pos htest]
          show some _ = Option.map _ (some c)
          rw [Option.map_some, Dictionary.insert_of_get? hms hc]
        · rw [if_neg htest, if_neg htest]
          rfl

/-! ## Lists of operations -/

theorem toOption_runFrom (index index' : Nat) (tree : Value) (ops : List Operation) :
    (runFrom index tree ops).toOption = (runFrom index' tree ops).toOption := by
  induction ops generalizing index index' tree with
  | nil => rfl
  | cons op ops ih =>
    simp only [runFrom]
    cases op.run tree with
    | error e => rfl
    | ok after => exact ih (index + 1) (index' + 1) after

theorem toOption_runAll_cons (tree : Value) (op : Operation) (ops : List Operation) :
    (runAll tree (op :: ops)).toOption
      = (op.run tree).toOption.bind fun after => (runAll after ops).toOption := by
  simp only [runAll, runFrom]
  cases op.run tree with
  | error e => rfl
  | ok after => exact toOption_runFrom 1 0 after ops

end Operation

end ConfigUpdate
