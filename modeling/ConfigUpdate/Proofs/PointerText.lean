import ConfigUpdate.Pointer.Basic
import ConfigUpdate.Proofs.TextParts

/-!
# The written form of pointers

A name is read back from its written form, in which no slash is left. So a pointer that consists of names is read
back from the names that are written behind slashes: `Pointer.parse_text`. What is read is written as it was:
`Pointer.text_of_parse`. A text is read exactly if it is empty or starts with a slash, and every tilde in it is
followed by `0` or `1`: `Pointer.exists_parse_iff`.
-/

namespace ConfigUpdate

namespace Step

theorem toList_text_key (name : String) : (key name).text.toList = name.toList.flatMap escapeChar :=
  String.toList_ofList

theorem unescape?_escapeChar (c : Char) (cs : List Char) :
    unescape? (escapeChar c ++ cs) = (unescape? cs).map (c :: ·) := by
  unfold escapeChar
  split
  · rename_i htilde
    rw [htilde]
    rfl
  · rename_i htilde
    split
    · rename_i hslash
      rw [hslash]
      rfl
    · rw [List.singleton_append, unescape?]
      · rw [if_neg htilde]
      · exact fun _ heq => absurd heq htilde
      · exact fun _ heq => absurd heq htilde

/-- A name is read back from its written form. -/
theorem unescape?_escape (cs : List Char) : unescape? (cs.flatMap escapeChar) = some cs := by
  induction cs with
  | nil => rfl
  | cons c cs ih => rw [List.flatMap_cons, unescape?_escapeChar, ih, Option.map_some]

theorem slash_not_mem_escape (cs : List Char) : '/' ∉ cs.flatMap escapeChar := by
  intro h
  obtain ⟨c, -, hc⟩ := List.mem_flatMap.1 h
  unfold escapeChar at hc
  split at hc
  · simp at hc
  · split at hc
    · simp at hc
    · rename_i hslash
      exact hslash (List.mem_singleton.1 hc).symm

/-- The characters with every `old` replaced. -/
def replaceChar (old : Char) (new cs : List Char) : List Char :=
  cs.flatMap fun c => if c = old then new else [c]

/-- Escaping in one pass is replacing the tildes first and then the slashes, as no escaped tilde has a slash. -/
theorem flatMap_escapeChar (cs : List Char) :
    cs.flatMap escapeChar = replaceChar '/' ['~', '1'] (replaceChar '~' ['~', '0'] cs) := by
  rw [replaceChar, replaceChar, List.flatMap_assoc]
  refine congrArg (fun f => cs.flatMap f) (funext fun c => ?_)
  unfold escapeChar
  split <;> simp

/-- Every tilde is followed by `0` or `1`. -/
def TildesEscaped (cs : List Char) : Prop :=
  ∀ front rest, cs = front ++ '~' :: rest → rest.head? = some '0' ∨ rest.head? = some '1'

theorem tildesEscaped_nil : TildesEscaped [] :=
  fun _ _ h => absurd h.symm (List.append_ne_nil_of_right_ne_nil _ (List.cons_ne_nil _ _))

theorem tildesEscaped_cons_iff {c : Char} {cs : List Char} : TildesEscaped (c :: cs) ↔
    (c = '~' → cs.head? = some '0' ∨ cs.head? = some '1') ∧ TildesEscaped cs := by
  constructor
  · intro h
    exact ⟨fun hc => h [] cs (by rw [hc]; rfl), fun front rest hcs => h (c :: front) rest (by rw [hcs]; rfl)⟩
  · rintro ⟨hc, hcs⟩ front rest hsplit
    cases front with
    | nil =>
      obtain ⟨rfl, rfl⟩ := List.cons.inj hsplit
      exact hc rfl
    | cons d front => exact hcs front rest (List.cons.inj hsplit).2

/-- A tilde and what follows it stand in one part. -/
theorem tildesEscaped_splitChars {cs : List Char} :
    (∀ part ∈ Text.splitChars '/' cs, TildesEscaped part) ↔ TildesEscaped cs := by
  induction cs with
  | nil => simp [Text.splitChars]
  | cons c cs ih =>
    rw [tildesEscaped_cons_iff, ← ih]
    by_cases hc : c = '/'
    · simp [Text.splitChars, hc, tildesEscaped_nil]
    · cases hsplit : Text.splitChars '/' cs with
      | nil => exact absurd hsplit (Text.splitChars_ne_nil '/' cs)
      | cons part parts =>
        have hzero := Text.head?_of_splitChars hsplit (d := '0') (by decide)
        have hone := Text.head?_of_splitChars hsplit (d := '1') (by decide)
        simp only [Text.splitChars, if_neg hc, hsplit, List.forall_mem_cons, tildesEscaped_cons_iff, hzero, hone,
          and_assoc]

theorem isSome_unescape?_iff {raw : List Char} : (unescape? raw).isSome ↔ TildesEscaped raw := by
  fun_induction unescape? raw with
  | case1 => simp [tildesEscaped_nil]
  | case2 cs ih => simp [tildesEscaped_cons_iff, ← ih]
  | case3 cs ih => simp [tildesEscaped_cons_iff, ← ih]
  | case4 cs hzero hone =>
    refine iff_of_false nofun fun h => ?_
    -- A tilde in front is followed by neither of the two.
    obtain h | h := (tildesEscaped_cons_iff.1 h).1 rfl
    · obtain ⟨rest, rfl⟩ := List.head?_eq_some_iff.1 h
      exact hzero rest rfl rfl
    · obtain ⟨rest, rfl⟩ := List.head?_eq_some_iff.1 h
      exact hone rest rfl rfl
  | case5 c cs _ _ hc ih => simp [tildesEscaped_cons_iff, hc, ← ih]

/-- A written form without a slash is that of the name for which it stands. -/
theorem escape_of_unescape? {raw name : List Char} (h : unescape? raw = some name) (hslash : '/' ∉ raw) :
    name.flatMap escapeChar = raw := by
  fun_induction unescape? raw generalizing name with
  | case1 =>
    cases h
    rfl
  | case2 cs ih =>
    obtain ⟨rest, hrest, rfl⟩ := Option.map_eq_some_iff.1 h
    rw [List.flatMap_cons, ih hrest (by simpa using hslash)]
    rfl
  | case3 cs ih =>
    obtain ⟨rest, hrest, rfl⟩ := Option.map_eq_some_iff.1 h
    rw [List.flatMap_cons, ih hrest (by simpa using hslash)]
    rfl
  | case4 => cases h
  | case5 c cs _ _ hc ih =>
    obtain ⟨rest, hrest, rfl⟩ := Option.map_eq_some_iff.1 h
    obtain ⟨hne, hcs⟩ := not_or.1 (mt List.mem_cons.2 hslash)
    have hchar : escapeChar c = [c] := by simp [escapeChar, hc, Ne.symm hne]
    rw [List.flatMap_cons, ih hrest hcs, hchar]
    rfl

end Step

namespace Pointer

/-- The pointer consists of names. -/
def Named (p : Pointer) : Prop :=
  ∀ s ∈ p, ∃ name, s = .key name

theorem named_ofNames (names : List String) : (ofNames names).Named := by
  intro s hs
  obtain ⟨name, -, rfl⟩ := List.mem_map.1 hs
  exact ⟨name, rfl⟩

theorem toList_text (p : Pointer) : p.text.toList = p.flatMap fun s => '/' :: s.text.toList := by
  have hfrom : ∀ location : String, (p.foldl (fun location step => step.textBelow location) location).toList
      = location.toList ++ p.flatMap fun s => '/' :: s.text.toList := by
    induction p with
    | nil => simp
    | cons s p ih =>
      intro location
      rw [List.foldl_cons, ih]
      simp [Step.textBelow]
  exact hfrom ""

/-- The names are written one after another, each behind a slash and with its tildes and slashes replaced. -/
theorem toList_text_ofNames (names : List String) : (ofNames names).text.toList =
    names.flatMap fun name => '/' :: Step.replaceChar '/' ['~', '1'] (Step.replaceChar '~' ['~', '0'] name.toList) := by
  rw [toList_text, ofNames, List.flatMap_map]
  simp only [Step.toList_text_key, Step.flatMap_escapeChar]

/-- The characters behind the first slash are the names with slashes between them. -/
theorem toList_text_cons (s : Step) (p : Pointer) :
    (text (s :: p)).toList = '/' :: Text.joinChars '/' ((s :: p).map fun s => s.text.toList) := by
  rw [toList_text]
  induction p generalizing s with
  | nil => simp [Text.joinChars]
  | cons t p ih =>
    have hrest := ih t
    rw [List.flatMap_cons, hrest]
    rfl

theorem stepsOf?_names {p : Pointer} (h : p.Named) : stepsOf? (p.map fun s => s.text.toList) = some p := by
  induction p with
  | nil => rfl
  | cons s p ih =>
    obtain ⟨⟨name, rfl⟩, hp⟩ := List.forall_mem_cons.1 h
    have hname : Step.unescape? (Step.key name).text.toList = some name.toList := by
      rw [Step.toList_text_key, Step.unescape?_escape]
    rw [List.map_cons, stepsOf?, hname, ih hp]
    simp

/-- A pointer that consists of names is read back from its written form. -/
theorem parse_text {p : Pointer} (h : p.Named) : parse p.text = .ok p := by
  cases p with
  | nil => rfl
  | cons s p =>
    have hslash : ∀ part ∈ (s :: p).map (fun s => s.text.toList), '/' ∉ part := by
      intro part hpart
      obtain ⟨step, hstep, rfl⟩ := List.mem_map.1 hpart
      obtain ⟨name, rfl⟩ := h step hstep
      rw [Step.toList_text_key]
      exact Step.slash_not_mem_escape name.toList
    have hsplit : Text.splitChars '/' (Text.joinChars '/' ((s :: p).map fun s => s.text.toList))
        = (s :: p).map fun s => s.text.toList :=
      Text.splitChars_joinChars (List.cons_ne_nil _ _) hslash
    unfold parse
    rw [toList_text_cons]
    simp only [hsplit, stepsOf?_names h]

/-! ## Texts that are read -/

variable {raws : List (List Char)} {raw : List Char} {s : String} {p : Pointer}

theorem stepsOf?_cons_eq_some_iff : stepsOf? (raw :: raws) = some p ↔
    ∃ name q, Step.unescape? raw = some name ∧ stepsOf? raws = some q ∧ p = .key (String.ofList name) :: q := by
  simp only [stepsOf?, Option.bind_eq_bind, Option.bind_eq_some_iff, Option.pure_def, Option.some.injEq]
  constructor
  · rintro ⟨name, hname, q, hq, rfl⟩
    exact ⟨name, q, hname, hq, rfl⟩
  · rintro ⟨name, q, hname, hq, rfl⟩
    exact ⟨name, hname, q, hq, rfl⟩

theorem isSome_stepsOf?_iff : (stepsOf? raws).isSome ↔ ∀ raw ∈ raws, Step.TildesEscaped raw := by
  induction raws with
  | nil => simp [stepsOf?]
  | cons raw raws ih =>
    rw [List.forall_mem_cons, ← Step.isSome_unescape?_iff, ← ih, Option.isSome_iff_exists]
    constructor
    · rintro ⟨p, hp⟩
      obtain ⟨name, q, hname, hq, -⟩ := stepsOf?_cons_eq_some_iff.1 hp
      simp [hname, hq]
    · rintro ⟨hname, hq⟩
      obtain ⟨name, hname⟩ := Option.isSome_iff_exists.1 hname
      obtain ⟨q, hq⟩ := Option.isSome_iff_exists.1 hq
      exact ⟨_, stepsOf?_cons_eq_some_iff.2 ⟨name, q, hname, hq, rfl⟩⟩

theorem text_of_stepsOf? (h : stepsOf? raws = some p) (hslash : ∀ raw ∈ raws, '/' ∉ raw) :
    p.map (fun s => s.text.toList) = raws := by
  induction raws generalizing p with
  | nil =>
    cases h
    rfl
  | cons raw raws ih =>
    obtain ⟨hraw, hraws⟩ := List.forall_mem_cons.1 hslash
    obtain ⟨name, q, hname, hq, rfl⟩ := stepsOf?_cons_eq_some_iff.1 h
    rw [List.map_cons, ih hq hraws, Step.toList_text_key, String.toList_ofList, Step.escape_of_unescape? hname hraw]

theorem parse_eq_ok_iff : parse s = .ok p ↔
    s = "" ∧ p = [] ∨ ∃ cs, s.toList = '/' :: cs ∧ stepsOf? (Text.splitChars '/' cs) = some p := by
  unfold parse
  split
  · rename_i hnil
    have hs : s = "" := String.toList_eq_nil_iff.1 hnil
    simp [hs, eq_comm]
  · rename_i cs hcs
    have hs : s ≠ "" := by
      rintro rfl
      cases hcs
    cases hsteps : stepsOf? (Text.splitChars '/' cs) <;> simp [hcs, hs, hsteps]
  · rename_i hnil hslash
    have hs : s ≠ "" := fun heq => hnil (String.toList_eq_nil_iff.2 heq)
    exact iff_of_false nofun fun h => by
      obtain ⟨heq, -⟩ | ⟨cs, hcs, -⟩ := h
      · exact hs heq
      · exact hslash cs hcs

/-- The texts that are written forms of pointers: the empty one, and those that start with a slash and have every
tilde escaped. -/
def Written (s : String) : Prop :=
  s = "" ∨ s.toList.head? = some '/' ∧ Step.TildesEscaped s.toList

/-- Exactly the written forms are read. -/
theorem exists_parse_iff : (∃ p, parse s = .ok p) ↔ Written s := by
  have hparts (cs : List Char) : (∃ p, stepsOf? (Text.splitChars '/' cs) = some p) ↔ Step.TildesEscaped cs := by
    rw [← Option.isSome_iff_exists, isSome_stepsOf?_iff, Step.tildesEscaped_splitChars]
  constructor
  · rintro ⟨p, hp⟩
    obtain ⟨hs, -⟩ | ⟨cs, hcs, hp⟩ := parse_eq_ok_iff.1 hp
    · exact .inl hs
    · rw [Written, hcs]
      exact .inr ⟨rfl, Step.tildesEscaped_cons_iff.2 ⟨nofun, (hparts cs).1 ⟨p, hp⟩⟩⟩
  · rintro (rfl | ⟨hslash, htildes⟩)
    · exact ⟨[], rfl⟩
    · obtain ⟨cs, hcs⟩ := List.head?_eq_some_iff.1 hslash
      rw [hcs] at htildes
      obtain ⟨p, hp⟩ := (hparts cs).2 (Step.tildesEscaped_cons_iff.1 htildes).2
      exact ⟨p, parse_eq_ok_iff.2 (.inr ⟨cs, hcs, hp⟩)⟩

/-- A pointer that has been read is written as it was. -/
theorem text_of_parse (h : parse s = .ok p) : p.text = s := by
  obtain ⟨rfl, rfl⟩ | ⟨cs, hcs, hp⟩ := parse_eq_ok_iff.1 h
  · rfl
  · have hparts := text_of_stepsOf? hp fun part hpart => Text.not_mem_of_mem_splitChars hpart
    cases p with
    | nil => exact absurd hparts.symm (Text.splitChars_ne_nil '/' cs)
    | cons step p =>
      rw [← String.toList_inj, toList_text_cons, hparts, Text.joinChars_splitChars, hcs]

end Pointer

end ConfigUpdate
