import ConfigUpdate.Proofs.MoveRun
import ConfigUpdate.Proofs.ValueEquality

/-!
# What a move does to an object

Whether an edit succeeds and what it makes of a tree does not depend on where the tree hangs; only the
words of its errors do. So a move whose path starts at a member of an object acts on that member alone,
as `Move.slotStep` says: `Move.toOption_step_object`. Everything about moves in larger trees is read off
this one equation.
-/

namespace ConfigUpdate

section Success

variable {ε α β : Type}

@[simp] theorem toOption_ok (a : α) : (Except.ok a : Except ε α).toOption = some a := rfl

@[simp] theorem toOption_error (e : ε) : (Except.error e : Except ε α).toOption = none := rfl

@[simp] theorem toOption_bind (x : Except ε α) (f : α → Except ε β) :
    (x >>= f).toOption = x.toOption.bind fun a => (f a).toOption := by
  cases x <;> rfl

theorem toOption_fst (x : Except ε (α × β)) :
    (do return (← x).1 : Except ε α).toOption = x.toOption.map Prod.fst := by
  cases x <;> rfl

theorem toOption_eq_some_iff {x : Except ε α} {a : α} : x.toOption = some a ↔ x = .ok a := by
  cases x <;> simp

/-- What succeeds as a whole does so step by step. -/
theorem exists_of_bind_eq_ok {x : Except ε α} {f : α → Except ε β} {b : β} (h : (x >>= f) = .ok b) :
    ∃ a, x = .ok a ∧ f a = .ok b := by
  cases x with
  | error e => cases h
  | ok a => exact ⟨a, rfl, h⟩

theorem bind_eq_ok_iff {x : Except ε Unit} {f : Unit → Except ε Unit} :
    (x >>= f) = .ok () ↔ x = .ok () ∧ f () = .ok () := by
  cases x <;> simp [bind, Except.bind]

theorem forM_eq_ok_iff {f : α → Except ε Unit} {l : List α} :
    l.forM f = .ok () ↔ ∀ a ∈ l, f a = .ok () := by
  induction l with
  | nil => simp [pure, Except.pure]
  | cons a l ih =>
    rw [List.forall_mem_cons, ← ih]
    exact bind_eq_ok_iff

end Success

/-! ## Locations only appear in errors -/

theorem Step.toOption_position (step : Step) (length : Nat) (atEnd : Bool) (location location' : String) :
    (step.position length atEnd location).toOption
      = (step.position length atEnd location').toOption := by
  have inRange : ∀ i limit : Nat,
      (if i < limit then Except.ok i
        else .error (ResolveError.indexOutOfRange location i length)).toOption
      = (if i < limit then Except.ok i
        else .error (ResolveError.indexOutOfRange location' i length)).toOption := by
    intro i limit
    split <;> rfl
  cases step with
  | index i => exact inRange i _
  | key k =>
    simp only [position]
    split
    · rfl
    · split
      · exact inRange _ _
      · rfl

namespace Value

theorem toOption_child (v : Value) (step : Step) (location location' : String) :
    (v.child step location).toOption = (v.child step location').toOption := by
  cases v with
  | scalar s => rfl
  | array xs =>
    simp only [child, toOption_bind, step.toOption_position xs.length false location location']
    congr 1
    funext i
    split <;> rfl
  | object ms =>
    simp only [child]
    split <;> rfl

theorem toOption_resolveFrom (location location' : String) (v : Value) (p : Pointer) :
    (resolveFrom location v p).toOption = (resolveFrom location' v p).toOption := by
  induction p generalizing v location location' with
  | nil => rfl
  | cons s p ih =>
    simp only [resolveFrom, toOption_bind, v.toOption_child s location location']
    congr 1
    funext c
    exact ih _ _ c

theorem toOption_alterFrom {α : Type} {f : String → Value → Except ResolveError (Value × α)}
    (hf : ∀ location location' v, (f location v).toOption = (f location' v).toOption)
    (location location' : String) (v : Value) (p : Pointer) :
    (alterFrom location f v p).toOption = (alterFrom location' f v p).toOption := by
  induction p generalizing v location location' with
  | nil => exact hf location location' v
  | cons s p ih =>
    simp only [alterFrom, toOption_bind, v.toOption_child s location location']
    congr 1
    funext c
    rw [ih (s.textBelow location) (s.textBelow location') c]

theorem toOption_insertChild (step : Step) (new : Value) (location location' : String) (v : Value) :
    (insertChild step new location v).toOption = (insertChild step new location' v).toOption := by
  cases v with
  | scalar s => rfl
  | object ms => rfl
  | array xs =>
    simp only [insertChild, toOption_bind, step.toOption_position xs.length true location location']

theorem toOption_removeChild (step : Step) (location location' : String) (v : Value) :
    (removeChild step location v).toOption = (removeChild step location' v).toOption := by
  cases v with
  | scalar s => rfl
  | object ms =>
    simp only [removeChild]
    split <;> rfl
  | array xs =>
    simp only [removeChild, toOption_bind, step.toOption_position xs.length false location location']
    congr 1
    funext i
    split <;> rfl

theorem hasNode_eq_isSome (v : Value) (place : Pointer) :
    v.hasNode place = (v.resolve place).toOption.isSome := by
  unfold hasNode
  cases v.resolve place <;> rfl

/-! ## Looking up and editing below a member -/

theorem toOption_resolve_cons (ms : List (String × Value)) (s : Step) (p : Pointer) :
    ((object ms).resolve (s :: p)).toOption
      = (Dictionary.get? ms s.name).bind fun c => (c.resolve p).toOption := by
  simp only [resolve, resolveFrom, toOption_bind, child]
  cases h : Dictionary.get? ms s.name with
  | none => rfl
  | some c => exact toOption_resolveFrom _ _ c p

theorem toOption_alterFrom_cons {α : Type} {f : String → Value → Except ResolveError (Value × α)}
    (hf : ∀ location location' v, (f location v).toOption = (f location' v).toOption)
    (ms : List (String × Value)) (s : Step) (p : Pointer) :
    (alterFrom "" f (object ms) (s :: p)).toOption
      = (Dictionary.get? ms s.name).bind fun c =>
        ((alterFrom "" f c p).toOption).map fun r =>
          (object (Dictionary.insert ms s.name r.1), r.2) := by
  simp only [alterFrom, toOption_bind, child]
  cases h : Dictionary.get? ms s.name with
  | none => rfl
  | some c =>
    simp only [toOption_ok, Option.bind_some, toOption_alterFrom hf (s.textBelow "") "" c p]
    cases (alterFrom "" f c p).toOption <;> rfl

/-- The tree after an edit below a member. -/
theorem fst_alterFrom_cons {α : Type} {f : String → Value → Except ResolveError (Value × α)}
    (hf : ∀ location location' v, (f location v).toOption = (f location' v).toOption)
    (ms : List (String × Value)) (s : Step) (p : Pointer) :
    (alterFrom "" f (object ms) (s :: p)).toOption.map Prod.fst
      = (Dictionary.get? ms s.name).bind fun c =>
        ((alterFrom "" f c p).toOption.map Prod.fst).map fun c' =>
          object (Dictionary.insert ms s.name c') := by
  rw [toOption_alterFrom_cons hf]
  cases Dictionary.get? ms s.name with
  | none => rfl
  | some c =>
    simp only [Option.bind_some, Option.map_map]
    rfl

end Value

/-! ## Moves -/

namespace Move

/-- The move as it looks from the first node on its path. -/
def below (m : Move) : Move :=
  { m with path := m.path.tail }

/-- Whether a move whose path ends at a member of an object finds there what it expects. -/
def expects (m : Move) (slot : Option Value) : Bool :=
  match m.precondition, slot with
  | .absent, none => true
  | .equals v, some w => w == v
  | _, _ => false

/-- What a move whose path ends at a member of an object makes of the member. -/
def change (m : Move) (slot : Option Value) : Option (Option Value) :=
  match m.kind, slot with
  | .add, _ => some (some (m.value.getD .empty))
  | .replace, some _ => some (some (m.value.getD .empty))
  | .remove, some _ => some none
  | _, none => none

/-- What a move makes of the member of an object at which its path starts, if it succeeds. -/
def slotStep (m : Move) (slot : Option Value) : Option (Option Value) :=
  match m.path with
  | _ :: _ :: _ => slot.bind fun c => (m.below.step c).toOption.map some
  | _ => if m.expects slot then m.change slot else none

theorem toOption_checkVacant (path : Pointer) (tree : Value) :
    (checkVacant path tree).toOption
      = if (tree.resolve path).toOption.isSome then none else some () := by
  unfold checkVacant Value.hasNode
  cases tree.resolve path <;> rfl

theorem toOption_check_absent {m : Move} (h : m.precondition = .absent) (hp : m.path ≠ [])
    (tree : Value) :
    (m.check tree).toOption = (tree.resolve m.path.dropLast).toOption.bind fun holder =>
      if holder.isScalar || (tree.resolve m.path).toOption.isSome then none else some () := by
  have hparent : m.path.parent? = some m.path.dropLast := by
    simp [Pointer.parent?, List.isEmpty_iff, hp]
  unfold check
  simp only [h, hparent]
  cases hr : tree.resolve m.path.dropLast with
  | error e => rfl
  | ok holder =>
    cases holder with
    | scalar s => rfl
    | array xs => exact toOption_checkVacant m.path tree
    | object ms => exact toOption_checkVacant m.path tree

theorem toOption_check_equals {m : Move} {v : Value} (h : m.precondition = .equals v) (tree : Value) :
    (m.check tree).toOption = (tree.resolve m.path).toOption.bind fun w =>
      if w == v then some () else none := by
  unfold check
  simp only [h]
  cases hr : tree.resolve m.path with
  | error e => rfl
  | ok w =>
    simp only [toOption_ok, Option.bind_some]
    split <;> rfl

/-- Below a member the precondition is one on the member. -/
theorem toOption_check_object {m : Move} {s s' : Step} {p : Pointer} (hp : m.path = s :: s' :: p)
    (ms : List (String × Value)) :
    (m.check (.object ms)).toOption
      = (Dictionary.get? ms s.name).bind fun c => (m.below.check c).toOption := by
  have hbelow : m.below.path = s' :: p := by simp [below, hp]
  cases h : m.precondition with
  | absent =>
    have hdrop : (s :: s' :: p).dropLast = s :: (s' :: p).dropLast := rfl
    rw [toOption_check_absent h (by simp [hp]), hp, hdrop, Value.toOption_resolve_cons,
      Value.toOption_resolve_cons]
    cases Dictionary.get? ms s.name with
    | none => rfl
    | some c =>
      simp only [Option.bind_some]
      rw [toOption_check_absent (m := m.below) h (by simp [hbelow]), hbelow]
  | equals v =>
    rw [toOption_check_equals h, hp, Value.toOption_resolve_cons]
    cases Dictionary.get? ms s.name with
    | none => rfl
    | some c =>
      simp only [Option.bind_some]
      rw [toOption_check_equals (m := m.below) h, hbelow]

/-- Below a member the edit is one of the member. -/
theorem toOption_run_object {m : Move} {s s' : Step} {p : Pointer} (hp : m.path = s :: s' :: p)
    (ms : List (String × Value)) :
    (m.run (.object ms)).toOption
      = (Dictionary.get? ms s.name).bind fun c =>
        (m.below.run c).toOption.map fun c' => .object (Dictionary.insert ms s.name c') := by
  have hbelow : m.below.path = s' :: p := by simp [below, hp]
  have hlast : (s :: s' :: p).getLast? = (s' :: p).getLast? := rfl
  have hdrop : (s :: s' :: p).dropLast = s :: (s' :: p).dropLast := rfl
  obtain ⟨last, hl⟩ : ∃ last, (s' :: p).getLast? = some last :=
    ⟨_, List.getLast?_eq_some_getLast (List.cons_ne_nil s' p)⟩
  have hkind : m.below.kind = m.kind := rfl
  have hvalue : m.below.value = m.value := rfl
  cases hk : m.kind with
  | add =>
    simp only [run, hk, hkind, hvalue, Value.insertAt, hp, hbelow, hlast, hl, hdrop, toOption_fst]
    exact Value.fst_alterFrom_cons (Value.toOption_insertChild last (m.value.getD .empty)) ms s _
  | remove =>
    simp only [run, hk, hkind, Value.removeAt, hp, hbelow, hlast, hl, hdrop, toOption_fst]
    exact Value.fst_alterFrom_cons (Value.toOption_removeChild last) ms s _
  | replace =>
    simp only [run, hk, hkind, hvalue, Value.replaceAt, hp, hbelow, toOption_fst]
    exact Value.fst_alterFrom_cons (fun _ _ _ => rfl) ms s _

/-- At a member the precondition is one on the member. -/
theorem toOption_check_slot {m : Move} {s : Step} (hp : m.path = [s]) (ms : List (String × Value)) :
    (m.check (.object ms)).toOption
      = if m.expects (Dictionary.get? ms s.name) then some () else none := by
  have hresolve : ((Value.object ms).resolve [s]).toOption = Dictionary.get? ms s.name := by
    rw [Value.toOption_resolve_cons]
    cases Dictionary.get? ms s.name <;> rfl
  cases h : m.precondition with
  | absent =>
    rw [toOption_check_absent h (by simp [hp]), hp, hresolve]
    cases hs : Dictionary.get? ms s.name <;> simp [expects, h, Value.resolve, Value.resolveFrom,
      Value.isScalar]
  | equals v =>
    rw [toOption_check_equals h, hp, hresolve]
    cases hs : Dictionary.get? ms s.name <;> simp [expects, h]

/-- At a member the edit sets or erases the member. -/
theorem toOption_run_slot {m : Move} {s : Step} (hp : m.path = [s]) (ms : List (String × Value)) :
    (m.run (.object ms)).toOption
      = (m.change (Dictionary.get? ms s.name)).map fun slot => .object (Dictionary.put ms s.name slot) := by
  cases hk : m.kind with
  | add =>
    simp [run, hk, hp, Value.insertAt, Value.alterFrom, Value.insertChild, change, Dictionary.put]
  | remove =>
    cases hs : Dictionary.get? ms s.name <;>
      simp [run, hk, hp, Value.removeAt, Value.alterFrom, Value.removeChild, change, Dictionary.put, hs]
  | replace =>
    cases hs : Dictionary.get? ms s.name <;>
      simp [run, hk, hp, Value.replaceAt, Value.alterFrom, Value.child, Value.setChild, change,
        Dictionary.put, hs]

theorem toOption_step (m : Move) (tree : Value) :
    (m.step tree).toOption = (m.check tree).toOption.bind fun _ => (m.run tree).toOption := by
  unfold step
  rw [toOption_bind]
  congr 1
  funext u
  cases m.run tree <;> rfl

/-- A move whose path starts at a member of an object acts on that member alone. -/
theorem toOption_step_object {m : Move} {s : Step} {p : Pointer} (hp : m.path = s :: p)
    (ms : List (String × Value)) :
    (m.step (.object ms)).toOption
      = (m.slotStep (Dictionary.get? ms s.name)).map fun slot =>
        .object (Dictionary.put ms s.name slot) := by
  rw [toOption_step]
  cases p with
  | nil =>
    rw [toOption_check_slot hp, toOption_run_slot hp]
    simp only [slotStep, hp]
    cases m.expects (Dictionary.get? ms s.name) <;> rfl
  | cons s' p =>
    rw [toOption_check_object hp, toOption_run_object hp]
    simp only [slotStep, hp]
    cases Dictionary.get? ms s.name with
    | none => rfl
    | some c =>
      simp only [Option.bind_some, toOption_step]
      cases (m.below.check c).toOption with
      | none => rfl
      | some u => cases (m.below.run c).toOption <;> rfl

end Move

end ConfigUpdate
