import ConfigUpdate.Proofs.Slots

/-!
# Giving a place its content

Every edit of a tree gives the place at a pointer a new content and leaves the places apart from it as they are:
`Value.resolveFrom_assign`. So two edits at places apart from each other can be made in any order
(`Value.assign_comm`), and an edit is undone by one that undoes what it did to the node at its place
(`Value.alterFrom_undo`).
-/

namespace ConfigUpdate

namespace Pointer

variable {s t : Step} {p q : Pointer}

/-- Of two places none is at or below the other one. -/
def Apart (p q : Pointer) : Prop :=
  p.startsWith q = false ∧ q.startsWith p = false

theorem Apart.symm (h : p.Apart q) : q.Apart p :=
  ⟨h.2, h.1⟩

theorem not_nil_apart (q : Pointer) : ¬ Apart [] q := by
  intro h
  cases h.2

theorem Apart.tail (h : Apart (s :: p) (t :: q)) (hname : s.name = t.name) : p.Apart q := by
  have hleft : (t.name == s.name && p.startsWith q) = false := h.1
  have hright : (s.name == t.name && q.startsWith p) = false := h.2
  simp only [hname, beq_self_eq_true, Bool.true_and] at hleft hright
  exact ⟨hleft, hright⟩

theorem startsWith_tail (h : startsWith (s :: p) (t :: q) = false) (hname : s.name = t.name) :
    p.startsWith q = false := by
  have hcons : (t.name == s.name && p.startsWith q) = false := h
  simpa [hname] using hcons

/-- The written form of the location to which a pointer leads from a location. -/
def textBelow (location : String) (p : Pointer) : String :=
  p.foldl (fun location step => step.textBelow location) location

end Pointer

namespace Value

variable {v w w' c : Value} {o a b : Option Value} {s : Step} {p q : Pointer} {location : String}

/-- What stands at a place after a place below it has been given its content. Where nothing stands there is no
place below. -/
def assigned (content : Option Value) : Pointer → Option Value → Option Value
  | [], _ => content
  | _ :: _, none => none
  | s :: p, some v => some (v.setSlot s (assigned content p (v.slot s)))

/-- The tree after the place at a pointer has been given its content. Without its root a tree is empty. -/
def assign (v : Value) (p : Pointer) (content : Option Value) : Value :=
  (assigned content p (some v)).getD empty

theorem assigned_some (w : Value) (p : Pointer) (v : Value) :
    assigned (some w) p (some v) = some (v.assign p (some w)) := by
  cases p <;> rfl

theorem assigned_of_ne_nil (o : Option Value) (hp : p ≠ []) (v : Value) :
    assigned o p (some v) = some (v.assign p o) := by
  cases p with
  | nil => exact absurd rfl hp
  | cons s p => rfl

theorem assigned_none (o : Option Value) (hp : p ≠ []) : assigned o p none = none := by
  cases p with
  | nil => exact absurd rfl hp
  | cons s p => rfl

theorem assign_cons (v : Value) (s : Step) (p : Pointer) (o : Option Value) :
    v.assign (s :: p) o = v.setSlot s (assigned o p (v.slot s)) := rfl

theorem assign_singleton (v : Value) (s : Step) (o : Option Value) : v.assign [s] o = v.setSlot s o := rfl

theorem assign_cons_of_slot (h : v.slot s = some c) (p : Pointer) (w : Value) :
    v.assign (s :: p) (some w) = v.setSlot s (some (c.assign p (some w))) := by
  rw [assign_cons, h, assigned_some]

/-! ## Nodes that are there -/

theorem resolveFrom_cons_eq_ok_iff : resolveFrom location v (s :: p) = .ok w ↔
    ∃ c, v.slot s = some c ∧ resolveFrom (s.textBelow location) c p = .ok w := by
  constructor
  · intro h
    obtain ⟨c, hc, h⟩ := exists_of_bind_eq_ok h
    exact ⟨c, slot_eq_some_iff.2 hc, h⟩
  · rintro ⟨c, hc, h⟩
    simp only [resolveFrom, slot_eq_some_iff.1 hc]
    exact h

theorem resolveFrom_append (location : String) (v : Value) (p q : Pointer) :
    resolveFrom location v (p ++ q) = (resolveFrom location v p).bind fun w => resolveFrom (p.textBelow location) w q := by
  induction p generalizing location v with
  | nil => rfl
  | cons s p ih =>
    simp only [List.cons_append, resolveFrom]
    cases v.child s location with
    | error e => rfl
    | ok c => exact ih (s.textBelow location) c

/-- A place that has been given a node has it. -/
theorem resolveFrom_assign_self (h : resolveFrom location v p = .ok w) (w' : Value) :
    resolveFrom location (v.assign p (some w')) p = .ok w' := by
  induction p generalizing v location with
  | nil => rfl
  | cons s p ih =>
    obtain ⟨c, hc, h⟩ := resolveFrom_cons_eq_ok_iff.1 h
    rw [assign_cons_of_slot hc]
    exact resolveFrom_cons_eq_ok_iff.2 ⟨_, slot_setSlot hc _, ih h⟩

/-- The second of two nodes stays. -/
theorem assign_assign (h : resolveFrom location v p = .ok w) (x y : Value) :
    (v.assign p (some x)).assign p (some y) = v.assign p (some y) := by
  induction p generalizing v location with
  | nil => rfl
  | cons s p ih =>
    obtain ⟨c, hc, h⟩ := resolveFrom_cons_eq_ok_iff.1 h
    rw [assign_cons_of_slot hc, assign_cons_of_slot (slot_setSlot hc _), setSlot_setSlot, ih h,
      assign_cons_of_slot hc]

/-- The node of a place can be given to it. -/
theorem assign_self (hv : v.WellFormed) (h : resolveFrom location v p = .ok w) : v.assign p (some w) = v := by
  induction p generalizing v location with
  | nil =>
    cases h
    rfl
  | cons s p ih =>
    obtain ⟨c, hc, h⟩ := resolveFrom_cons_eq_ok_iff.1 h
    have hcwf : c.WellFormed := wellFormed_slot hv hc
    rw [assign_cons_of_slot hc, ih hcwf h, ← hc, setSlot_slot hv]

/-- A place below a node is a place of the node. -/
theorem assign_append (h : resolveFrom location v p = .ok w) (hq : q ≠ []) (o : Option Value) :
    v.assign (p ++ q) o = v.assign p (some (w.assign q o)) := by
  induction p generalizing v location with
  | nil =>
    cases h
    rfl
  | cons s p ih =>
    obtain ⟨c, hc, h⟩ := resolveFrom_cons_eq_ok_iff.1 h
    have hne : p ++ q ≠ [] := List.append_ne_nil_of_right_ne_nil p hq
    rw [List.cons_append, assign_cons, hc, assigned_of_ne_nil o hne, ih h, assign_cons_of_slot hc]

/-! ## Places apart -/

/-- The places apart from one that is given its content lead where they led, or fail as they failed. -/
theorem resolveFrom_assign (hv : v.WellFormed) (h : p.Apart q) (o : Option Value) (location : String) :
    resolveFrom location (v.assign p o) q = resolveFrom location v q := by
  induction p generalizing v q location with
  | nil => exact absurd h (Pointer.not_nil_apart q)
  | cons s p ih =>
    cases q with
    | nil => exact absurd h.symm (Pointer.not_nil_apart _)
    | cons t q =>
      rw [assign_cons]
      simp only [resolveFrom]
      by_cases hslot : v.SameSlot s t
      · have htail := h.tail hslot.name_eq
        have hp : p ≠ [] := fun heq => Pointer.not_nil_apart q (heq ▸ htail)
        rw [← (hslot.setSlot s _).child_eq, ← hslot.child_eq]
        cases hs : v.slot s with
        | none =>
          have hsame : v.setSlot s none = v := hs ▸ setSlot_slot hv s
          rw [assigned_none o hp, hsame]
        | some c =>
          have hc : v.child s location = .ok c := slot_eq_some_iff.1 hs
          have hnew : (v.setSlot s (some (c.assign p o))).child s location = .ok (c.assign p o) :=
            slot_eq_some_iff.1 (slot_setSlot hs _)
          rw [assigned_of_ne_nil o hp, hnew, hc]
          exact ih (wellFormed_child hv hc) htail (t.textBelow location)
      · rw [child_setSlot_of_not_sameSlot hv hslot]

/-- Places apart from each other are given their contents in any order. -/
theorem assign_comm (hv : v.WellFormed) (h : p.Apart q) (a b : Option Value) :
    (v.assign p a).assign q b = (v.assign q b).assign p a := by
  induction p generalizing v q with
  | nil => exact absurd h (Pointer.not_nil_apart q)
  | cons s p ih =>
    cases q with
    | nil => exact absurd h.symm (Pointer.not_nil_apart _)
    | cons t q =>
      simp only [assign_cons]
      by_cases hslot : v.SameSlot s t
      · have htail := h.tail hslot.name_eq
        have hp : p ≠ [] := fun heq => Pointer.not_nil_apart q (heq ▸ htail)
        have hq : q ≠ [] := fun heq => Pointer.not_nil_apart p (heq ▸ htail.symm)
        rw [← (hslot.setSlot s _).slot_eq, ← (hslot.setSlot s _).setSlot_eq, ← hslot.slot_eq,
          ← hslot.setSlot_eq]
        cases hs : v.slot s with
        | none =>
          have hsame : v.setSlot s none = v := hs ▸ setSlot_slot hv s
          rw [assigned_none a hp, assigned_none b hq, hsame, hs, assigned_none a hp, assigned_none b hq]
        | some c =>
          have hcwf : c.WellFormed := wellFormed_slot hv hs
          simp only [assigned_of_ne_nil _ hp, assigned_of_ne_nil _ hq, slot_setSlot hs, setSlot_setSlot]
          rw [ih hcwf htail]
      · have hslot' : ¬ v.SameSlot t s := fun heq => hslot (SameSlot.symm heq)
        have ht : (v.setSlot s (assigned a p (v.slot s))).slot t = v.slot t :=
          congrArg Except.toOption (child_setSlot_of_not_sameSlot hv hslot _ "")
        have hs : (v.setSlot t (assigned b q (v.slot t))).slot s = v.slot s :=
          congrArg Except.toOption (child_setSlot_of_not_sameSlot hv hslot' _ "")
        rw [ht, hs, setSlot_comm hv hslot]

/-- A node at which an object stands is one at which an object stands, whatever is given to another place that it
is not at or below. -/
theorem exists_object_assign {ms : List (String × Value)} (hv : v.WellFormed)
    (h : resolveFrom location v q = .ok (object ms)) (hq : q.startsWith p = false) (o : Option Value) :
    ∃ ns, resolveFrom location (v.assign p o) q = .ok (object ns) := by
  induction q generalizing v p location with
  | nil =>
    cases h
    cases p with
    | nil => cases hq
    | cons s p =>
      rw [assign_cons, setSlot_object]
      exact ⟨_, rfl⟩
  | cons t q ih =>
    obtain ⟨c, hc, h⟩ := resolveFrom_cons_eq_ok_iff.1 h
    have hcwf : c.WellFormed := wellFormed_slot hv hc
    cases p with
    | nil => cases hq
    | cons s p =>
      rw [assign_cons]
      by_cases hslot : v.SameSlot s t
      · obtain ⟨ns, hns⟩ := ih hcwf h (Pointer.startsWith_tail hq hslot.name_eq.symm)
        have hp : p ≠ [] := by
          rintro rfl
          have hbelow : (s.name == t.name && true) = false := hq
          simp [hslot.name_eq] at hbelow
        rw [hslot.slot_eq, hc, assigned_of_ne_nil o hp, hslot.setSlot_eq]
        exact ⟨ns, resolveFrom_cons_eq_ok_iff.2 ⟨_, slot_setSlot hc _, hns⟩⟩
      · have ht : (v.setSlot s (assigned o p (v.slot s))).slot t = v.slot t :=
          congrArg Except.toOption (child_setSlot_of_not_sameSlot hv hslot _ "")
        exact ⟨ms, resolveFrom_cons_eq_ok_iff.2 ⟨c, ht.trans hc, h⟩⟩

/-! ## Edits -/

/-- An edit gives its place what it makes of the node there. -/
theorem alterFrom_eq {α : Type} (f : String → Value → Except ResolveError (Value × α)) (location : String)
    (v : Value) (p : Pointer) :
    alterFrom location f v p = do
      let r ← f (p.textBelow location) (← resolveFrom location v p)
      return (v.assign p (some r.1), r.2) := by
  induction p generalizing location v with
  | nil =>
    show f location v = (f location v).bind _
    cases f location v <;> rfl
  | cons s p ih =>
    have htext : Pointer.textBelow location (s :: p) = Pointer.textBelow (s.textBelow location) p := rfl
    simp only [alterFrom, resolveFrom, htext, bind, Except.bind]
    cases hc : v.child s location with
    | error e => rfl
    | ok c =>
      simp only [ih, assign_cons_of_slot (slot_eq_some_iff.2 hc), bind, Except.bind]
      cases resolveFrom (s.textBelow location) c p with
      | error e => rfl
      | ok w =>
        simp only
        cases f (Pointer.textBelow (s.textBelow location) p) w <;> rfl

theorem alterFrom_eq_ok_iff {α : Type} {f : String → Value → Except ResolveError (Value × α)} {x : α} :
    alterFrom location f v p = .ok (w', x) ↔
      ∃ w new, resolveFrom location v p = .ok w ∧ f (p.textBelow location) w = .ok (new, x) ∧
        w' = v.assign p (some new) := by
  rw [alterFrom_eq]
  constructor
  · intro h
    obtain ⟨w, hw, h⟩ := exists_of_bind_eq_ok h
    obtain ⟨⟨new, y⟩, hf, h⟩ := exists_of_bind_eq_ok h
    cases h
    exact ⟨w, new, hw, hf, rfl⟩
  · rintro ⟨w, new, hw, hf, rfl⟩
    simp only [hw, hf, bind, Except.bind, pure, Except.pure]

/-- An edit is undone by one that undoes what it did to the node at its place. -/
theorem alterFrom_undo {α β : Type} {f : String → Value → Except ResolveError (Value × α)}
    {g : String → Value → Except ResolveError (Value × β)} {x : α} {y : β} (hv : v.WellFormed)
    (h : alterFrom location f v p = .ok (w', x))
    (hundo : ∀ w new, resolveFrom location v p = .ok w → f (p.textBelow location) w = .ok (new, x) →
      g (p.textBelow location) new = .ok (w, y)) :
    alterFrom location g w' p = .ok (v, y) := by
  obtain ⟨w, new, hw, hf, rfl⟩ := alterFrom_eq_ok_iff.1 h
  refine alterFrom_eq_ok_iff.2 ⟨new, w, resolveFrom_assign_self hw new, hundo w new hw hf, ?_⟩
  rw [assign_assign hw, assign_self hv hw]

theorem insertAt_eq {last : Step} (h : p.getLast? = some last) (v new : Value) :
    v.insertAt p new = (alterFrom "" (insertChild last new) v p.dropLast).map Prod.fst := by
  simp only [insertAt, h]
  cases alterFrom "" (insertChild last new) v p.dropLast <;> rfl

theorem insertAt_concat (v : Value) (parent : Pointer) (s : Step) (new : Value) :
    v.insertAt (parent ++ [s]) new = (alterFrom "" (insertChild s new) v parent).map Prod.fst := by
  rw [insertAt_eq List.getLast?_concat, List.dropLast_concat]

theorem insertAt_concat_eq_ok_iff {parent : Pointer} {new : Value} :
    v.insertAt (parent ++ [s]) new = .ok w ↔ alterFrom "" (insertChild s new) v parent = .ok (w, ()) := by
  rw [insertAt_concat]
  cases alterFrom "" (insertChild s new) v parent with
  | error e => exact ⟨nofun, nofun⟩
  | ok r => exact ⟨fun h => by cases h; rfl, fun h => by cases h; rfl⟩

theorem removeAt_concat (v : Value) (parent : Pointer) (s : Step) :
    v.removeAt (parent ++ [s]) = alterFrom "" (removeChild s) v parent := by
  simp only [removeAt, List.getLast?_concat, List.dropLast_concat]

theorem resolve_concat (v : Value) (parent : Pointer) (s : Step) :
    v.resolve (parent ++ [s]) = (v.resolve parent).bind fun w => w.child s parent.text := by
  rw [resolve, resolveFrom_append]
  cases hw : resolveFrom "" v parent with
  | error e => simp only [resolve, hw, Except.bind]
  | ok w =>
    simp only [resolve, hw, Except.bind, resolveFrom]
    show (w.child s parent.text).bind _ = _
    cases w.child s parent.text <;> rfl

end Value

end ConfigUpdate
