import ConfigUpdate.Proofs.EditsInPlace
import ConfigUpdate.Proofs.NumberTexts
import ConfigUpdate.Proofs.PointerText

/-!
# Addresses in their written form

Pointers that consist of names and their written forms correspond to each other one to one. The written form of any
pointer is read as one in which every position is spelled as a name, and look-ups and edits through it have the same
results, the same faults and leave the same trees: `Pointer.written_one_to_one`. So to write a pointer down and read
it again never changes what it addresses.
-/

namespace ConfigUpdate

/-! ## Positions as texts -/

/-- A position is read back from its digits. -/
theorem Text.index?_toString {bound i : Nat} (h : i < bound) : index? bound (toString i) = some i := by
  have hdigits : digits? (Nat.toDigits 10 i) = some i := digits?_numeral 0 i
  have hzero := Json.not_leadingZero_toDigits i
  simp [index?, Nat.repr_eq_ofList_toDigits, hzero, hdigits, h]

namespace Step

variable {s : Step}

/-- The step spelled as a name. -/
def spelled (s : Step) : Step := .key s.name

/-- A position has 64 bits. -/
def Bounded : Step → Prop
  | key _ => True
  | index i => i < positionBound

instance : DecidablePred Bounded
  | key _ => isTrue trivial
  | index i => inferInstanceAs (Decidable (i < positionBound))

@[simp] theorem name_spelled (s : Step) : s.spelled.name = s.name := rfl

theorem escapeChar_of_isDigit {c : Char} (h : c.isDigit = true) : escapeChar c = [c] := by
  have htilde : c ≠ '~' := by
    rintro rfl
    cases h
  have hslash : c ≠ '/' := by
    rintro rfl
    cases h
  rw [escapeChar, if_neg htilde, if_neg hslash]

theorem escape_toString (i : Nat) : escape (toString i) = toString i := by
  have hdigit : ∀ c ∈ Nat.toDigits 10 i, escapeChar c = [c] :=
    fun c hc => escapeChar_of_isDigit (Json.isDigit_of_mem_toDigits hc)
  have hlist : (toString i).toList = Nat.toDigits 10 i := by simp [Nat.repr_eq_ofList_toDigits]
  rw [escape, ← String.toList_inj, String.toList_ofList, hlist, List.flatMap_congr hdigit, List.flatMap_singleton']

@[simp] theorem text_spelled (s : Step) : s.spelled.text = s.text := by
  cases s with
  | key k => rfl
  | index i => exact escape_toString i

@[simp] theorem textBelow_spelled (s : Step) (location : String) :
    s.spelled.textBelow location = s.textBelow location := by
  rw [textBelow, textBelow, text_spelled]

/-- In an array, a name stands for the position that it spells, in range or not. -/
theorem position_spelled (hs : s.Bounded) (length : Nat) (atEnd : Bool) (location : String) :
    s.spelled.position length atEnd location = s.position length atEnd location := by
  cases s with
  | key k => rfl
  | index i =>
    have hread : Text.index? positionBound (toString i) = some i := Text.index?_toString hs
    have hend : toString i ≠ "-" := by
      intro heq
      exact (show (key "-").Spells i from heq ▸ hread).ne_end rfl
    have hnot : ¬ (atEnd && toString i == "-") = true :=
      fun h => hend (beq_iff_eq.1 (Bool.and_eq_true_iff.1 h).2)
    simp only [spelled, position, name, if_neg hnot, hread]

end Step

namespace Pointer

variable {p : Pointer}

/-- The pointer with every step spelled as a name. -/
def spelled (p : Pointer) : Pointer := p.map Step.spelled

/-- Every position has 64 bits. -/
def Bounded (p : Pointer) : Prop :=
  ∀ s ∈ p, s.Bounded

instance (p : Pointer) : Decidable p.Bounded := inferInstanceAs (Decidable (∀ s ∈ p, s.Bounded))

theorem named_spelled (p : Pointer) : p.spelled.Named := by
  intro s hs
  obtain ⟨t, -, rfl⟩ := List.mem_map.1 hs
  exact ⟨t.name, rfl⟩

theorem text_spelled (p : Pointer) : p.spelled.text = p.text := by
  rw [← String.toList_inj, toList_text, toList_text, spelled, List.flatMap_map]
  simp only [Step.text_spelled]

/-- The written form of a pointer is read with every step spelled as a name. -/
theorem parse_text_eq (p : Pointer) : parse p.text = .ok p.spelled := by
  rw [← text_spelled]
  exact parse_text p.named_spelled

theorem getLast?_spelled (p : Pointer) : p.spelled.getLast? = p.getLast?.map Step.spelled :=
  List.getLast?_map

theorem dropLast_spelled (p : Pointer) : p.spelled.dropLast = spelled p.dropLast :=
  List.map_dropLast.symm

theorem Bounded.dropLast (hp : p.Bounded) : Bounded p.dropLast :=
  fun s hs => hp s (p.dropLast_subset hs)

theorem Bounded.getLast? (hp : p.Bounded) {last : Step} (h : p.getLast? = some last) : last.Bounded :=
  hp last (List.mem_of_getLast? h)

end Pointer

namespace Value

variable {s : Step} {p : Pointer}

/-! ## One step -/

theorem child_spelled (hs : s.Bounded) (v : Value) (location : String) :
    v.child s.spelled location = v.child s location := by
  cases v <;> simp only [child, Step.name_spelled, Step.position_spelled hs]

theorem setChild_spelled (hs : s.Bounded) (v c : Value) : v.setChild s.spelled c = v.setChild s c := by
  cases v <;> simp only [setChild, Step.name_spelled, Step.position_spelled hs]

theorem insertChild_spelled (hs : s.Bounded) (new : Value) (location : String) (v : Value) :
    insertChild s.spelled new location v = insertChild s new location v := by
  cases v <;> simp only [insertChild, Step.name_spelled, Step.position_spelled hs]

theorem removeChild_spelled (hs : s.Bounded) (location : String) (v : Value) :
    removeChild s.spelled location v = removeChild s location v := by
  cases v <;> simp only [removeChild, Step.name_spelled, Step.position_spelled hs]

theorem insertHere_spelled (hs : s.Bounded) (new : Value) (location : String) (v : Value) :
    insertHere s.spelled new location v = insertHere s new location v := by
  cases v <;> simp only [insertHere, Step.name_spelled, Step.position_spelled hs]

theorem removeHere_spelled (hs : s.Bounded) (location : String) (v : Value) :
    removeHere s.spelled location v = removeHere s location v := by
  cases v <;> simp only [removeHere, Step.name_spelled, Step.position_spelled hs]

/-! ## The way down -/

theorem resolveFrom_spelled (hp : p.Bounded) (location : String) (v : Value) :
    resolveFrom location v p.spelled = resolveFrom location v p := by
  induction p generalizing location v with
  | nil => rfl
  | cons s p ih =>
    obtain ⟨hs, hp⟩ := List.forall_mem_cons.1 hp
    have hbelow (c : Value) : resolveFrom (s.textBelow location) c (p.map Step.spelled)
        = resolveFrom (s.textBelow location) c p := ih hp (s.textBelow location) c
    simp only [Pointer.spelled, List.map_cons, resolveFrom, child_spelled hs, Step.textBelow_spelled, hbelow]

theorem alterFrom_spelled {α : Type} (hp : p.Bounded) (f : String → Value → Except ResolveError (Value × α))
    (location : String) (v : Value) : alterFrom location f v p.spelled = alterFrom location f v p := by
  induction p generalizing location v with
  | nil => rfl
  | cons s p ih =>
    obtain ⟨hs, hp⟩ := List.forall_mem_cons.1 hp
    have hbelow (c : Value) : alterFrom (s.textBelow location) f c (p.map Step.spelled)
        = alterFrom (s.textBelow location) f c p := ih hp (s.textBelow location) c
    simp only [Pointer.spelled, List.map_cons, alterFrom, child_spelled hs, setChild_spelled hs,
      Step.textBelow_spelled, hbelow]

theorem changeFrom_spelled {α : Type} (hp : p.Bounded) (change : InPlace α) (location : String) (v : Value) :
    changeFrom change location v p.spelled = changeFrom change location v p := by
  induction p generalizing location v with
  | nil => rfl
  | cons s p ih =>
    obtain ⟨hs, hp⟩ := List.forall_mem_cons.1 hp
    have hbelow (c : Value) : changeFrom change (s.textBelow location) c (p.map Step.spelled)
        = changeFrom change (s.textBelow location) c p := ih hp (s.textBelow location) c
    cases v <;> simp only [Pointer.spelled, List.map_cons, changeFrom, Step.name_spelled,
      Step.position_spelled hs, Step.textBelow_spelled, hbelow]

/-! ## Look-ups and edits -/

/-- The look-up and the edits through one pointer have the same results, the same faults and leave the same trees as
those through another one, also where the tree is changed in place. -/
structure SameThrough (tree : Value) (p q : Pointer) : Prop where
  resolve : tree.resolve p = tree.resolve q
  insert : ∀ new, tree.insertAt p new = tree.insertAt q new
  remove : tree.removeAt p = tree.removeAt q
  replace : ∀ new, tree.replaceAt p new = tree.replaceAt q new
  insertHere : ∀ new, insertInPlace p new tree = insertInPlace q new tree
  removeHere : removeInPlace p tree = removeInPlace q tree
  replaceHere : ∀ new, replaceInPlace p new tree = replaceInPlace q new tree

/-- Spelling the positions of a pointer as names changes nothing. -/
theorem sameThrough_spelled (hp : p.Bounded) (tree : Value) : tree.SameThrough p.spelled p where
  resolve := resolveFrom_spelled hp "" tree
  insert new := by
    simp only [insertAt, Pointer.getLast?_spelled, Pointer.dropLast_spelled]
    cases hlast : p.getLast? with
    | none => rfl
    | some last =>
      have hinsert : insertChild last.spelled new = insertChild last new :=
        funext₂ (insertChild_spelled (hp.getLast? hlast) new)
      simp only [Option.map_some, hinsert, alterFrom_spelled hp.dropLast]
  remove := by
    simp only [removeAt, Pointer.getLast?_spelled, Pointer.dropLast_spelled]
    cases hlast : p.getLast? with
    | none => rfl
    | some last =>
      have hremove : removeChild last.spelled = removeChild last :=
        funext₂ (removeChild_spelled (hp.getLast? hlast))
      simp only [Option.map_some, hremove, alterFrom_spelled hp.dropLast]
  replace new := alterFrom_spelled hp _ "" tree
  insertHere new := by
    simp only [insertInPlace, Pointer.getLast?_spelled, Pointer.dropLast_spelled, Pointer.text_spelled]
    cases hlast : p.getLast? with
    | none => rfl
    | some last =>
      have hinsert : Value.insertHere last.spelled new = Value.insertHere last new :=
        funext₂ (insertHere_spelled (hp.getLast? hlast) new)
      simp only [Option.map_some, hinsert, changeFrom_spelled hp.dropLast]
  removeHere := by
    simp only [removeInPlace, Pointer.getLast?_spelled, Pointer.dropLast_spelled, Pointer.text_spelled]
    cases hlast : p.getLast? with
    | none => rfl
    | some last =>
      have hremove : Value.removeHere last.spelled = Value.removeHere last :=
        funext₂ (removeHere_spelled (hp.getLast? hlast))
      simp only [Option.map_some, hremove, changeFrom_spelled hp.dropLast]
  replaceHere new := changeFrom_spelled hp _ "" tree

end Value

namespace Pointer

/-- Pointers and their written forms correspond to each other. Exactly the written forms are read, and each is written
as it was read; a pointer that consists of names is written behind slashes, with tildes and slashes replaced, and read
back; and any pointer is read back as one through which the look-up and the edits of every tree are the same. -/
theorem written_one_to_one :
    (∀ s, (∃ p, parse s = .ok p) ↔ Written s) ∧
    (∀ s p, parse s = .ok p → p.text = s) ∧
    (∀ names, parse (ofNames names).text = .ok (ofNames names)) ∧
    (∀ names, (ofNames names).text.toList = names.flatMap fun name =>
      '/' :: Step.replaceChar '/' ['~', '1'] (Step.replaceChar '~' ['~', '0'] name.toList)) ∧
    ∀ p : Pointer, p.Bounded → ∃ q, parse p.text = .ok q ∧ ∀ tree : Value, tree.SameThrough q p := by
  refine ⟨fun s => exists_parse_iff, fun s p => text_of_parse, fun names => parse_text (named_ofNames names),
    toList_text_ofNames, ?_⟩
  intro p hp
  exact ⟨p.spelled, p.parse_text_eq, Value.sameThrough_spelled hp⟩

/-- The second item below a name with a tilde and a slash and an empty name. -/
def oddItem : Pointer := [.key "a/~1", .key "", .index 1]

theorem written_one_to_one_oddItem : oddItem.text = "/a~1~01//1" ∧ oddItem.Bounded ∧
    parse "/a~1~01//1" = .ok oddItem.spelled ∧ oddItem.spelled.text = "/a~1~01//1" ∧
    ∃ q, parse oddItem.text = .ok q ∧ ∀ tree : Value, tree.SameThrough q oddItem := by
  obtain ⟨-, hwrite, -, -, hthrough⟩ := written_one_to_one
  have hbounded : oddItem.Bounded := by decide
  have hparse : parse "/a~1~01//1" = .ok oddItem.spelled := by decide
  exact ⟨by decide, hbounded, hparse, hwrite _ _ hparse, hthrough oddItem hbounded⟩

end Pointer

end ConfigUpdate
