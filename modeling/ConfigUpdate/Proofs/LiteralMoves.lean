import ConfigUpdate.Proofs.EditLaws

/-!
# Moving a node by a patch

An operation that moves a node to a vacant place makes of the tree what copying the node and removing it would
make of it, and moving the node back gives the tree back; a node that is moved to its own place stays where it is:
`Operation.move_reversible`. The destination is looked up once the node has been taken out, so it must not be
reached through the array from which the node is taken.
-/

namespace ConfigUpdate

namespace Pointer

variable {p q : Pointer} {s : Step}

theorem startsWith_iff : q.startsWith p = true ↔ p.map Step.name <+: q.map Step.name :=
  List.isPrefixOf_iff_prefix

theorem startsWith_concat (h : (q ++ [s]).startsWith p = false) : q.startsWith p = false := by
  by_contra hq
  have hq : p.map Step.name <+: q.map Step.name := startsWith_iff.1 (by simpa using hq)
  have hp : (q ++ [s]).startsWith p = true := by
    rw [startsWith_iff, List.map_append]
    exact hq.trans (List.prefix_append _ _)
  rw [h] at hp
  cases hp

theorem isBelow_self (p : Pointer) : p.isBelow p = false := by
  simp [isBelow]

end Pointer

namespace Value

variable {tree v w x : Value} {ms : List (String × Value)} {s : Step} {p q source dest : Pointer}
  {location location' : String}

/-- A way that goes through a member of an object, however its steps are spelled, goes through a member that is
there. -/
theorem exists_member_of_startsWith (hq : resolveFrom location v q = .ok w)
    (hp : resolveFrom location' v p = .ok (object ms)) (h : q.startsWith (p ++ [s]) = true) :
    ∃ c, Dictionary.get? ms s.name = some c := by
  induction p generalizing v q location location' with
  | nil =>
    cases hp
    cases q with
    | nil => cases h
    | cons t q =>
      obtain ⟨c, hc, -⟩ := resolveFrom_cons_eq_ok_iff.1 hq
      have hname : (s.name == t.name && true) = true := h
      rw [slot_object, ← show s.name = t.name by simpa using hname] at hc
      exact ⟨c, hc⟩
  | cons r p ih =>
    cases q with
    | nil => cases h
    | cons t q =>
      obtain ⟨c, hc, hq⟩ := resolveFrom_cons_eq_ok_iff.1 hq
      obtain ⟨d, hd, hp⟩ := resolveFrom_cons_eq_ok_iff.1 hp
      have hcons : (r.name == t.name && Pointer.startsWith q (p ++ [s])) = true := h
      obtain ⟨hname, hbelow⟩ := Bool.and_eq_true_iff.1 hcons
      have hslot := sameSlot_of_name_eq (beq_iff_eq.1 hname) hd hc
      obtain rfl : d = c := Option.some.inj (hd.symm.trans (hslot.slot_eq.trans hc))
      exact ih hq hp hbelow

/-- A node can be moved to a vacant place: it is there, the place is one for a member of an object that has no such
member, and the place is not below the node. The node is a member too, or else the way to the place does not lead
through the array that loses the node. -/
structure Movable (tree : Value) (source dest : Pointer) (x : Value) : Prop where
  present : tree.resolve source = .ok x
  vacant : ∃ e, tree.resolve dest = .error e
  holder : ∃ ns, tree.resolve dest.dropLast = .ok (.object ns)
  notBelow : dest.isBelow source = false
  way : (∃ ms, tree.resolve source.dropLast = .ok (.object ms)) ∨ dest.startsWith source.dropLast = false

namespace Movable

theorem dest_ne_nil (h : tree.Movable source dest x) : dest ≠ [] := by
  rintro rfl
  obtain ⟨e, he⟩ := h.vacant
  cases he

theorem source_ne_nil (h : tree.Movable source dest x) : source ≠ [] := by
  rintro rfl
  have hbelow := h.notBelow
  cases dest with
  | nil => exact h.dest_ne_nil rfl
  | cons t q => simp [Pointer.isBelow, Pointer.startsWith] at hbelow

/-- The two places are apart. -/
theorem apart (h : tree.Movable source dest x) : source.Apart dest := by
  obtain ⟨e, he⟩ := h.vacant
  obtain ⟨ns, hns⟩ := h.holder
  have hconcat : dest.dropLast ++ [dest.getLast h.dest_ne_nil] = dest :=
    List.dropLast_append_getLast h.dest_ne_nil
  have hsource : source.startsWith dest = false := by
    by_contra hstarts
    have hthrough : source.startsWith (dest.dropLast ++ [dest.getLast h.dest_ne_nil]) = true := by
      rw [hconcat]
      exact Bool.eq_true_of_not_eq_false hstarts
    obtain ⟨c, hc⟩ := exists_member_of_startsWith h.present hns hthrough
    rw [← hconcat, resolve_concat, hns] at he
    simp only [Except.bind, child, hc] at he
    cases he
  refine ⟨hsource, ?_⟩
  by_contra hstarts
  have hdest : dest.startsWith source = true := Bool.eq_true_of_not_eq_false hstarts
  have hprefix := Pointer.startsWith_iff.1 hdest
  have hle : source.length ≤ dest.length := by simpa using hprefix.length_le
  have hge : dest.length ≤ source.length := by
    have hbelow := h.notBelow
    rw [Pointer.isBelow, hdest, Bool.and_true, decide_eq_false_iff_not] at hbelow
    omega
  -- Of the same length, the two places would be one.
  have hsame := hprefix.eq_of_length (by rw [List.length_map, List.length_map]; omega)
  have hback : source.startsWith dest = true := Pointer.startsWith_iff.2 (hsame ▸ List.prefix_refl _)
  rw [hsource] at hback
  cases hback

/-- Taking the node out gives a place apart from the destination a content, and does so whether the destination is
vacant or not. -/
theorem exists_removal (h : tree.Movable source dest x) (htree : tree.WellFormed) :
    ∃ place content, place.Apart dest ∧ tree.removeAt source = .ok (tree.assign place content, x) ∧
      ∀ c, (tree.assign dest (some c)).removeAt source
        = .ok ((tree.assign dest (some c)).assign place content, x) := by
  have hapart := h.apart
  obtain ⟨parent, s, rfl⟩ := (List.eq_nil_or_concat' source).resolve_left h.source_ne_nil
  have hparent : Pointer.startsWith parent dest = false := Pointer.startsWith_concat hapart.1
  have hway := h.way
  rw [List.dropLast_concat] at hway
  obtain ⟨ms, hms⟩ | hpast := hway
  · refine ⟨parent ++ [s], none, hapart, removeAt_below_object hms h.present, fun c => ?_⟩
    obtain ⟨ns, hns⟩ := exists_object_assign htree hms hparent (some c)
    have hpresent := (resolveFrom_assign htree hapart.symm (some c) "").trans h.present
    exact removeAt_below_object hns hpresent
  · obtain ⟨t', ht'⟩ := exists_removeAt htree h.present
    have hplace : Pointer.Apart parent dest := ⟨hparent, hpast⟩
    have hedit := ht'
    rw [removeAt_concat] at hedit
    obtain ⟨w, new, hw, hnew, rfl⟩ := alterFrom_eq_ok_iff.1 hedit
    refine ⟨parent, some new, hplace, ht', fun c => ?_⟩
    have hw' := (resolveFrom_assign htree hplace.symm (some c) "").trans hw
    rw [removeAt_concat]
    exact alterFrom_eq_ok_iff.2 ⟨w, new, hw', hnew, rfl⟩

end Movable

end Value

namespace Operation

variable {tree after removed x : Value} {source dest p : Pointer} {op : Operation}

/-- The operation that moves a node. -/
def moving (source dest : Pointer) : Operation := ⟨.move, dest, none, some source⟩

/-- The operation that copies a node. -/
def copying (source dest : Pointer) : Operation := ⟨.copy, dest, none, some source⟩

/-- The operation that removes a node. -/
def removing (p : Pointer) : Operation := ⟨.remove, p, none, none⟩

theorem run_moving (hbelow : dest.isBelow source = false) (hremove : tree.removeAt source = .ok (removed, x))
    (hinsert : removed.insertAt dest x = .ok after) : (moving source dest).run tree = .ok after := by
  simp [run, moving, needSource, hbelow, hremove, edited, hinsert, bind, Except.bind]

theorem run_copying (hresolve : tree.resolve source = .ok x) (hinsert : tree.insertAt dest x = .ok after) :
    (copying source dest).run tree = .ok after := by
  simp [run, copying, needSource, hresolve, edited, hinsert, bind, Except.bind]

theorem run_removing (hremove : tree.removeAt p = .ok (removed, x)) : (removing p).run tree = .ok removed := by
  simp [run, removing, hremove, edited, bind, Except.bind, pure, Except.pure]

theorem runAll_singleton (h : op.run tree = .ok after) : runAll tree [op] = .ok after := by
  simp only [runAll, runFrom, h]

theorem runAll_pair {op' : Operation} (h : op.run tree = .ok removed) (h' : op'.run removed = .ok after) :
    runAll tree [op, op'] = .ok after := by
  simp only [runAll, runFrom, h, h']

/-- Moving a node to a vacant place is copying it and removing it, and moving it back gives the tree back. A node
that is moved to its own place stays there. -/
theorem move_reversible (tree : Value) (htree : tree.WellFormed) :
    (∀ source dest x, tree.Movable source dest x → ∃ after,
      runAll tree [moving source dest] = .ok after ∧
      runAll tree [copying source dest, removing source] = .ok after ∧
      runAll after [moving dest source] = .ok tree) ∧
    ∀ p x, tree.resolve p = .ok x → runAll tree [moving p p] = .ok tree := by
  constructor
  · intro source dest x h
    obtain ⟨place, content, hplace, hremove, hremove'⟩ := h.exists_removal htree
    obtain ⟨ns, hns⟩ := h.holder
    obtain ⟨e, he⟩ := h.vacant
    have hdest : dest.dropLast ++ [dest.getLast h.dest_ne_nil] = dest :=
      List.dropLast_append_getLast h.dest_ne_nil
    obtain ⟨htaken, hx⟩ := Value.wellFormed_removeAt htree hremove
    -- The object that is to hold the node is still one when the node has been taken out.
    obtain ⟨ns', hns'⟩ := Value.exists_object_assign htree hns
      (Pointer.startsWith_concat (s := dest.getLast h.dest_ne_nil) (hdest.symm ▸ hplace.2)) content
    have hinsert := Value.insertAt_below_object hns' (dest.getLast h.dest_ne_nil) x
    have hcopy := Value.insertAt_below_object hns (dest.getLast h.dest_ne_nil) x
    rw [hdest] at hinsert hcopy
    refine ⟨_, runAll_singleton (run_moving h.notBelow hremove hinsert), ?_, ?_⟩
    · rw [Value.assign_comm htree hplace]
      exact runAll_pair (run_copying h.present hcopy) (run_removing (hremove' x))
    · have hlaws := Value.memberLaws htaken hns' (dest.getLast h.dest_ne_nil) x
      rw [hdest] at hlaws
      have hmissing := (Value.resolveFrom_assign htree hplace content "").trans he
      have hback := hlaws.undone _ e hmissing hinsert
      have hbelow : source.isBelow dest = false := by
        rw [Pointer.isBelow, h.apart.1, Bool.and_false]
      exact runAll_singleton (run_moving hbelow hback ((Value.removeLaws htree source).undone _ _ hremove))
  · intro p x hp
    obtain ⟨t', ht'⟩ := Value.exists_removeAt htree hp
    exact runAll_singleton (run_moving (Pointer.isBelow_self p) ht' ((Value.removeLaws htree p).undone _ _ ht'))

/-- A tree with a port. -/
def upPort : Value :=
  .object [("PORT", .object [("Ethernet0", .object
    [("admin_status", .ofString "up"), ("mtu", .ofString "9100")])])]

/-- Where the status of the port stands. -/
def statusField : Pointer := .ofNames ["PORT", "Ethernet0", "admin_status"]

/-- Where it can be moved. -/
def stateField : Pointer := .ofNames ["PORT", "Ethernet0", "state"]

/-- The tree with the status there. -/
def statePort : Value :=
  .object [("PORT", .object [("Ethernet0", .object
    [("mtu", .ofString "9100"), ("state", .ofString "up")])])]

theorem move_reversible_upPort : upPort.WellFormed ∧ upPort.Movable statusField stateField (.ofString "up") ∧
    runAll upPort [moving statusField stateField] = .ok statePort ∧
    runAll upPort [copying statusField stateField, removing statusField] = .ok statePort ∧
    runAll statePort [moving stateField statusField] = .ok upPort ∧
    runAll upPort [moving statusField statusField] = .ok upPort := by
  have htree : upPort.WellFormed := by decide
  have hpresent : upPort.resolve statusField = .ok (.ofString "up") := rfl
  have hmovable : upPort.Movable statusField stateField (.ofString "up") :=
    ⟨hpresent, ⟨_, rfl⟩, ⟨_, rfl⟩, rfl, .inl ⟨_, rfl⟩⟩
  obtain ⟨hmove, hself⟩ := move_reversible upPort htree
  obtain ⟨after, hmoved, hcopied, hback⟩ := hmove statusField stateField _ hmovable
  have hstate : runAll upPort [moving statusField stateField] = .ok statePort := rfl
  obtain rfl : statePort = after := Except.ok.inj (hstate.symm.trans hmoved)
  exact ⟨htree, hmovable, hmoved, hcopied, hback, hself statusField _ hpresent⟩

end Operation

end ConfigUpdate
