import ConfigUpdate.Proofs.Assignments

/-!
# Edits of a tree where it stands

An edit can be made without building a new tree: the nodes on the way to its place are changed where they stand.
Then a failure could leave a tree that is changed in part. It does not, as an edit in place answers as the edit
does, and after a failure the tree is as it was: `Value.insertInPlace_eq`, `Value.removeInPlace_eq` and
`Value.replaceInPlace_eq`.
-/

namespace ConfigUpdate

/-- An edit of a tree where it stands: what it answers, and the tree as it leaves it, also when it fails. -/
abbrev InPlace (α : Type) := Value → Except ResolveError α × Value

/-- After a failure the tree is as it was. -/
def InPlace.Keeps {α : Type} (edit : InPlace α) (tree : Value) : Prop :=
  ∀ e, (edit tree).1 = .error e → (edit tree).2 = tree

namespace Value

variable {v : Value} {location : String}

/-- Goes down from a node at `location` to the node at a pointer, lets it be changed there, and leaves every node
on the way with what has become of its child. -/
def changeFrom {α : Type} (change : InPlace α) (location : String) (v : Value) :
    Pointer → Except ResolveError α × Value
  | [] => change v
  | s :: p =>
    match v with
    | object ms =>
      match Dictionary.get? ms s.name with
      | none => (.error (.keyNotFound location s.name), v)
      | some c =>
        let (answer, c) := changeFrom change (s.textBelow location) c p
        (answer, object (Dictionary.insert ms s.name c))
    | array xs =>
      match s.position xs.length false location with
      | .error e => (.error e, v)
      | .ok i =>
        match xs[i]? with
        | none => (.error (.indexOutOfRange location i xs.length), v)
        | some c =>
          let (answer, c) := changeFrom change (s.textBelow location) c p
          (answer, array (xs.set i c))
    | scalar _ => (.error (.notAContainer location s.name v.kind), v)

/-- Adds a child to a node at `location` where it stands. -/
def insertHere (step : Step) (new : Value) (location : String) : InPlace Unit
  | object ms => (.ok (), object (Dictionary.insert ms step.name new))
  | array xs =>
    match step.position xs.length true location with
    | .ok i => (.ok (), array (xs.insertIdx i new))
    | .error e => (.error e, array xs)
  | scalar x => (.error (.notAContainer location step.name (scalar x).kind), scalar x)

/-- Takes a child away from a node at `location` where it stands. Whether an object had the member is only known
once it is gone. -/
def removeHere (step : Step) (location : String) : InPlace Value
  | object ms =>
    let answer := match Dictionary.get? ms step.name with
      | some c => .ok c
      | none => .error (.keyNotFound location step.name)
    (answer, object (Dictionary.erase ms step.name))
  | array xs =>
    match step.position xs.length false location with
    | .ok i =>
      match xs[i]? with
      | some c => (.ok c, array (xs.eraseIdx i))
      | none => (.error (.indexOutOfRange location i xs.length), array xs)
    | .error e => (.error e, array xs)
  | scalar x => (.error (.notAContainer location step.name (scalar x).kind), scalar x)

/-- Inserts a value at a pointer, in place. -/
def insertInPlace (p : Pointer) (new : Value) : InPlace Unit := fun v =>
  match p.getLast? with
  | none => (.ok (), new)
  | some last => changeFrom (insertHere last new (Pointer.text p.dropLast)) "" v p.dropLast

/-- Removes the node at a pointer, in place. -/
def removeInPlace (p : Pointer) : InPlace Value := fun v =>
  match p.getLast? with
  | none => (.ok v, empty)
  | some last => changeFrom (removeHere last (Pointer.text p.dropLast)) "" v p.dropLast

/-- Gives the node at a pointer another value, in place. -/
def replaceInPlace (p : Pointer) (new : Value) : InPlace Value := fun v =>
  changeFrom (fun old => (.ok old, new)) "" v p

/-! ## Edits in place and edits -/

/-- The answer of an edit and the tree after it, which after a failure is the one before it. -/
def settle {α : Type} (v : Value) : Except ResolveError (Value × α) → Except ResolveError α × Value
  | .ok (v', a) => (.ok a, v')
  | .error e => (.error e, v)

theorem keeps_of_eq_settle {α : Type} {edit : InPlace α} {x : Except ResolveError (Value × α)}
    (h : edit v = v.settle x) : edit.Keeps v := by
  intro e he
  rw [h] at he ⊢
  cases x with
  | error e' => rfl
  | ok r => cases he

theorem insertHere_eq (step : Step) (new : Value) (location : String) (v : Value) :
    insertHere step new location v = v.settle (insertChild step new location v) := by
  cases v with
  | scalar x => rfl
  | object ms => rfl
  | array xs =>
    simp only [insertHere, insertChild]
    cases step.position xs.length true location <;> rfl

/-- The removal of a member that is missing removes nothing. -/
theorem erase_of_get?_eq_none {ms : List (String × Value)} {key : String} (hms : Dictionary.Sorted ms)
    (h : Dictionary.get? ms key = none) : Dictionary.erase ms key = ms := by
  refine Dictionary.ext_of_sorted (Dictionary.sorted_erase hms key) hms fun key' => ?_
  rw [Dictionary.get?_erase hms]
  split
  · rename_i hkey
    rw [← hkey, h]
  · rfl

theorem removeHere_eq (step : Step) (location : String) (hv : v.WellFormed) :
    removeHere step location v = v.settle (removeChild step location v) := by
  cases v with
  | scalar x => rfl
  | object ms =>
    simp only [removeHere, removeChild]
    cases hget : Dictionary.get? ms step.name with
    | none =>
      rw [erase_of_get?_eq_none hv.1 hget]
      rfl
    | some c => rfl
  | array xs =>
    simp only [removeHere, removeChild]
    cases step.position xs.length false location with
    | error e => rfl
    | ok i =>
      simp only [bind, Except.bind]
      cases xs[i]? <;> rfl

/-- A change in place is an edit, if what it does to the node at its place is what the edit does. -/
theorem changeFrom_eq {α : Type} {change : InPlace α} {f : String → Value → Except ResolveError (Value × α)}
    {p : Pointer} (hv : v.WellFormed)
    (h : ∀ w : Value, w.WellFormed → change w = w.settle (f (p.textBelow location) w)) :
    changeFrom change location v p = v.settle (alterFrom location f v p) := by
  induction p generalizing v location with
  | nil => exact h v hv
  | cons s p ih =>
    unfold changeFrom alterFrom
    cases v with
    | scalar x => rfl
    | object ms =>
      simp only [child]
      cases hget : Dictionary.get? ms s.name with
      | none => rfl
      | some c =>
        have hc : c.WellFormed := (wellFormed_object_iff.1 hv).2 _ _ hget
        simp only [ih hc h, bind, Except.bind]
        cases alterFrom (s.textBelow location) f c p with
        | error e =>
          -- The way back writes the child that is there already.
          simp only [settle, Dictionary.insert_of_get? hv.1 hget]
        | ok r => rfl
    | array xs =>
      simp only [child]
      cases hposition : s.position xs.length false location with
      | error e => rfl
      | ok i =>
        simp only [bind, Except.bind]
        cases hget : xs[i]? with
        | none => rfl
        | some c =>
          have hc : c.WellFormed := wellFormed_array_iff.1 hv _ (List.mem_of_getElem? hget)
          simp only [ih hc h]
          cases alterFrom (s.textBelow location) f c p with
          | error e =>
            obtain ⟨hlt, rfl⟩ := List.getElem?_eq_some_iff.1 hget
            simp only [settle, List.set_getElem_self]
          | ok r =>
            have hitem : s.item? xs.length = some i := by
              rw [Step.item?, s.toOption_position xs.length false "" location, hposition]
              rfl
            exact congrArg (Prod.mk _) (setSlot_array hitem r.1).symm

/-- Inserting in place inserts, and after a failure the tree is as it was. -/
theorem insertInPlace_eq (hv : v.WellFormed) (p : Pointer) (new : Value) :
    insertInPlace p new v = v.settle ((v.insertAt p new).map fun v' => (v', ())) := by
  unfold insertInPlace
  cases hlast : p.getLast? with
  | none => simp [settle, insertAt, hlast, Except.map, pure, Except.pure]
  | some last =>
    have hchange : changeFrom (insertHere last new (Pointer.text p.dropLast)) "" v p.dropLast =
        v.settle (alterFrom "" (insertChild last new) v p.dropLast) :=
      changeFrom_eq hv fun w _ => insertHere_eq last new (Pointer.text p.dropLast) w
    rw [insertAt_eq hlast]
    refine hchange.trans ?_
    cases alterFrom "" (insertChild last new) v p.dropLast <;> rfl

/-- Removing in place removes, and after a failure the tree is as it was. -/
theorem removeInPlace_eq (hv : v.WellFormed) (p : Pointer) : removeInPlace p v = v.settle (v.removeAt p) := by
  unfold removeInPlace removeAt
  cases p.getLast? with
  | none => rfl
  | some last =>
    exact changeFrom_eq hv fun w hw => removeHere_eq last (Pointer.text p.dropLast) hw

/-- Replacing in place replaces, and after a failure the tree is as it was. -/
theorem replaceInPlace_eq (hv : v.WellFormed) (p : Pointer) (new : Value) :
    replaceInPlace p new v = v.settle (v.replaceAt p new) :=
  changeFrom_eq hv fun _ _ => rfl

end Value

end ConfigUpdate
