import ConfigUpdate.Json.Printer
import ConfigUpdate.Json.Reader
import ConfigUpdate.Proofs.IntegralTrees
import ConfigUpdate.Proofs.NumberTexts

/-!
# Reading JSON back

A tree that nests no deeper than a document may, and whose numbers are integers, is read back from the text
that is written for it: `Json.parse?_pretty`, and `Json.parse?_prettyLine` for a text whose last line is
complete. The text is scanned into the tokens of the tree with every number as it is read, on many lines with
any indentation (`Json.scan_prettyAt`) as on one line (`Json.scan_compact`). A tree is read from its tokens
(`Json.readInside_tokensOf`), and not if it nests too deep (`Json.readInside_tokensOf_deep`).
-/

namespace ConfigUpdate

namespace Json

/-! ## Texts -/

theorem scan_shortEscape {letter c : Char} (h : shortEscape? letter = some c) (ps : List Piece)
    (rest : List Char) :
    scan (.text ps) ('\\' :: letter :: rest) = scan (.text (.char c :: ps)) rest := by
  have hunit : letter ≠ 'u' := by
    rintro rfl
    cases h
  simp [scan, hunit, h]

theorem hexDigit?_hexChar {d : Nat} (h : d < 16) : Text.hexDigit? (hexChar d) = some d := by
  have hall : ∀ d < 16, Text.hexDigit? (hexChar d) = some d := by decide
  exact hall d h

theorem scan_unitEscape {n : Nat} (h : n < 0x20) (ps : List Piece) (rest : List Char) :
    scan (.text ps) ('\\' :: 'u' :: '0' :: '0' :: hexChar (n / 16) :: hexChar (n % 16) :: rest)
      = scan (.text (.unit n :: ps)) rest := by
  have hzero : Text.hexDigit? '0' = some 0 := rfl
  have hhigh := hexDigit?_hexChar (show n / 16 < 16 by omega)
  have hlow := hexDigit?_hexChar (show n % 16 < 16 by omega)
  have hvalue : 16 * (n / 16) + n % 16 = n := by omega
  simp [scan, hzero, hhigh, hlow, hvalue]

/-- A piece that stands for a character. -/
def Piece.StandsFor (p : Piece) (c : Char) : Prop :=
  p = .char c ∨ c.toNat < 0x20 ∧ p = .unit c.toNat

/-- A character is escaped inside quotes so that the scanner finds it again. -/
theorem scan_quoteChar (c : Char) : ∃ p : Piece, p.StandsFor c ∧ ∀ ps rest,
    scan (.text ps) (quoteChar c ++ rest) = scan (.text (p :: ps)) rest := by
  have hshort : ∀ letter, shortEscape? letter = some c → quoteChar c = ['\\', letter] →
      ∃ p : Piece, p.StandsFor c ∧ ∀ ps rest,
        scan (.text ps) (quoteChar c ++ rest) = scan (.text (p :: ps)) rest := by
    intro letter hletter hquote
    refine ⟨.char c, .inl rfl, fun ps rest => ?_⟩
    rw [hquote]
    exact scan_shortEscape hletter ps rest
  by_cases hmark : c = '"'
  · subst hmark
    exact hshort '"' rfl rfl
  by_cases hslash : c = '\\'
  · subst hslash
    exact hshort '\\' rfl rfl
  by_cases hline : c = '\n'
  · subst hline
    exact hshort 'n' rfl rfl
  by_cases hreturn : c = '\r'
  · subst hreturn
    exact hshort 'r' rfl rfl
  by_cases htab : c = '\t'
  · subst htab
    exact hshort 't' rfl rfl
  by_cases hback : c.toNat = 8
  · obtain rfl : c = Char.ofNat 8 := by rw [← hback, Char.ofNat_toNat]
    exact hshort 'b' rfl rfl
  by_cases hfeed : c.toNat = 12
  · obtain rfl : c = Char.ofNat 12 := by rw [← hfeed, Char.ofNat_toNat]
    exact hshort 'f' rfl rfl
  by_cases hcontrol : c.toNat < 0x20
  · refine ⟨.unit c.toNat, .inr ⟨hcontrol, rfl⟩, fun ps rest => ?_⟩
    rw [← scan_unitEscape hcontrol]
    simp [quoteChar, hmark, hslash, hline, hreturn, htab, hback, hfeed, hcontrol]
  · refine ⟨.char c, .inl rfl, fun ps rest => ?_⟩
    simp [quoteChar, scan, hmark, hslash, hline, hreturn, htab, hback, hfeed, hcontrol]

theorem decode?_cons {p : Piece} {c : Char} (h : p.StandsFor c) (ps : List Piece) :
    decode? (p :: ps) = (decode? ps).map (c :: ·) := by
  obtain rfl | ⟨hcontrol, rfl⟩ := h
  · rfl
  · have hhigh : ¬ (0xD800 ≤ c.toNat ∧ c.toNat < 0xDC00) := by omega
    have hlow : ¬ (0xDC00 ≤ c.toNat ∧ c.toNat < 0xE000) := by omega
    rw [decode?.eq_def]
    simp only [if_neg hhigh, if_neg hlow, Char.ofNat_toNat]

/-- The scanner goes through escaped characters up to the closing quote. -/
theorem scan_quoted (cs rest : List Char) : ∃ ps : List Piece, decode? ps = some cs ∧ ∀ before,
    scan (.text before) (cs.flatMap quoteChar ++ '"' :: rest)
      = textToken (before.reverse ++ ps) :: scan .idle rest := by
  induction cs with
  | nil => exact ⟨[], rfl, fun before => by simp [scan]⟩
  | cons c cs ih =>
    obtain ⟨p, hp, hscan⟩ := scan_quoteChar c
    obtain ⟨ps, hps, hrest⟩ := ih
    refine ⟨p :: ps, by rw [decode?_cons hp, hps]; rfl, fun before => ?_⟩
    rw [List.flatMap_cons, List.append_assoc, hscan, hrest, List.reverse_cons, List.append_assoc]
    rfl

/-- A text is read back from its quoted form. -/
theorem scan_quote (s : String) (rest : List Char) :
    scan .idle ((quote s).toList ++ rest) = .text (some s) :: scan .idle rest := by
  obtain ⟨ps, hps, hscan⟩ := scan_quoted s.toList rest
  have hchars : (quote s).toList ++ rest = '"' :: (s.toList.flatMap quoteChar ++ '"' :: rest) := by
    simp [quote]
  have hopen : ∀ cs, scan .idle ('"' :: cs) = scan (.text []) cs := fun _ => rfl
  rw [hchars, hopen, hscan, List.reverse_nil, List.nil_append, textToken, hps, Option.map_some,
    String.ofList_toList]

/-! ## Tokens -/

/-- The token of a leaf. -/
def leafToken : Scalar → Token
  | .number n => .number (some n)
  | .string s => .text (some s)
  | s => .word s

mutual

/-- The tokens of a value. -/
def tokensOf : Value → List Token
  | .scalar s => [leafToken s]
  | .array [] => [.openBracket, .closeBracket]
  | .array (x :: xs) => .openBracket :: (tokensOf x ++ (furtherItems xs ++ [.closeBracket]))
  | .object [] => [.openBrace, .closeBrace]
  | .object ((k, x) :: ms) =>
    .openBrace :: .text (some k) :: .colon :: (tokensOf x ++ (furtherMembers ms ++ [.closeBrace]))

/-- The tokens of items that follow another one. -/
def furtherItems : List Value → List Token
  | [] => []
  | x :: xs => .comma :: (tokensOf x ++ furtherItems xs)

/-- The tokens of members that follow another one. -/
def furtherMembers : List (String × Value) → List Token
  | [] => []
  | (k, x) :: ms => .comma :: .text (some k) :: .colon :: (tokensOf x ++ furtherMembers ms)

end

/-- The tokens between the brackets of an array. -/
def itemTokens : List Value → List Token
  | [] => []
  | x :: xs => tokensOf x ++ furtherItems xs

/-- The tokens between the braces of an object. -/
def memberTokens : List (String × Value) → List Token
  | [] => []
  | (k, x) :: ms => .text (some k) :: .colon :: (tokensOf x ++ furtherMembers ms)

/-! ## Scanning -/

theorem ends_cons {c : Char} (h : inNumber c = false) (cs : List Char) : Ends (c :: cs) := by
  rintro c' cs' heq
  cases heq
  exact h

theorem scan_leaf {s : Scalar} (hs : s.Readable) {rest : List Char} (hrest : Ends rest) :
    scan .idle ((leaf s).toList ++ rest) = leafToken s.reread :: scan .idle rest := by
  cases s with
  | null => rfl
  | bool b => cases b <;> rfl
  | number n =>
    obtain ⟨m, l, hspelled, hchars, hvalue⟩ := hs
    have hread : n.reread = m := Number.Reads.reread_eq ⟨l, hspelled, hchars, hvalue⟩
    show scan .idle (n.render.toList ++ rest) = .number (some n.reread) :: scan .idle rest
    rw [hchars, scan_chars hspelled hrest, hvalue, hread]
  | string s => exact scan_quote s rest

theorem scan_openBracket (rest : List Char) : scan .idle ('[' :: rest) = .openBracket :: scan .idle rest := rfl

theorem scan_closeBracket (rest : List Char) : scan .idle (']' :: rest) = .closeBracket :: scan .idle rest := rfl

theorem scan_openBrace (rest : List Char) : scan .idle ('\x7b' :: rest) = .openBrace :: scan .idle rest := rfl

theorem scan_closeBrace (rest : List Char) : scan .idle ('\x7d' :: rest) = .closeBrace :: scan .idle rest := rfl

theorem scan_colon (rest : List Char) : scan .idle (':' :: rest) = .colon :: scan .idle rest := rfl

theorem scan_comma (rest : List Char) : scan .idle (',' :: rest) = .comma :: scan .idle rest := rfl

theorem scan_blank (rest : List Char) : scan .idle (' ' :: rest) = scan .idle rest := rfl

theorem scan_spaces (n : Nat) (rest : List Char) :
    scan .idle (List.replicate n ' ' ++ rest) = scan .idle rest := by
  induction n with
  | zero => rfl
  | succ n ih => exact ih

theorem scan_newLine (level : Nat) (rest : List Char) :
    scan .idle ((newLine level).toList ++ rest) = scan .idle rest := by
  have hchars : (newLine level).toList ++ rest = '\n' :: (List.replicate (2 * level) ' ' ++ rest) := by
    simp [newLine]
  rw [hchars]
  exact scan_spaces _ _

/-- A new line ends a number. -/
theorem ends_newLine (level : Nat) (rest : List Char) : Ends ((newLine level).toList ++ rest) := by
  have hchars : (newLine level).toList ++ rest = '\n' :: (List.replicate (2 * level) ' ' ++ rest) := by
    simp [newLine]
  rw [hchars]
  exact ends_cons rfl _

-- The induction follows the printer, which treats the last item and the last member apart.
mutual

/-- The text of a value on many lines has the tokens of the value as it is read. -/
theorem scan_prettyAt : ∀ (level : Nat) (v : Value), v.Leaves Scalar.Readable → ∀ rest, Ends rest →
    scan .idle ((prettyAt level v).toList ++ rest) = tokensOf (v.mapLeaves Scalar.reread) ++ scan .idle rest
  | level, .scalar s, h, rest, hrest => scan_leaf h hrest
  | level, .array [], _, rest, _ => by simp [prettyAt, tokensOf, Value.mapLeaves, Value.mapItems, scan, begin?]
  | level, .object [], _, rest, _ => by simp [prettyAt, tokensOf, Value.mapLeaves, Value.mapMembers, scan, begin?]
  | level, .array (x :: xs), h, rest, hrest => by
    have hitems := scan_prettyItems (level + 1) (x :: xs) h ((newLine level).toList ++ ']' :: rest)
      (ends_newLine level _)
    have hchars : (prettyAt level (.array (x :: xs))).toList ++ rest
        = '[' :: ((prettyItems (level + 1) (x :: xs)).toList ++ ((newLine level).toList ++ ']' :: rest)) := by
      simp [prettyAt]
    rw [hchars, scan_openBracket, hitems, scan_newLine, scan_closeBracket]
    simp [tokensOf, itemTokens, Value.mapLeaves, Value.mapItems]
  | level, .object ((k, x) :: ms), h, rest, hrest => by
    have hmembers := scan_prettyMembers (level + 1) ((k, x) :: ms) h ((newLine level).toList ++ '\x7d' :: rest)
      (ends_newLine level _)
    have hchars : (prettyAt level (.object ((k, x) :: ms))).toList ++ rest
        = '\x7b' :: ((prettyMembers (level + 1) ((k, x) :: ms)).toList
          ++ ((newLine level).toList ++ '\x7d' :: rest)) := by
      simp [prettyAt]
    rw [hchars, scan_openBrace, hmembers, scan_newLine, scan_closeBrace]
    simp [tokensOf, memberTokens, Value.mapLeaves, Value.mapMembers]

theorem scan_prettyItems : ∀ (level : Nat) (xs : List Value), Value.LeavesItems Scalar.Readable xs →
    ∀ rest, Ends rest →
    scan .idle ((prettyItems level xs).toList ++ rest) = itemTokens (Value.mapItems Scalar.reread xs) ++ scan .idle rest
  | level, [], _, rest, _ => rfl
  | level, [x], h, rest, hrest => by
    have hx := scan_prettyAt level x h.1 rest hrest
    have hchars : (prettyItems level [x]).toList ++ rest
        = (newLine level).toList ++ ((prettyAt level x).toList ++ rest) := by
      simp [prettyItems]
    rw [hchars, scan_newLine, hx]
    simp [itemTokens, furtherItems, Value.mapItems]
  | level, x :: y :: ys, h, rest, hrest => by
    have hys := scan_prettyItems level (y :: ys) h.2 rest hrest
    have hx := scan_prettyAt level x h.1 (',' :: ((prettyItems level (y :: ys)).toList ++ rest))
      (ends_cons rfl _)
    have hchars : (prettyItems level (x :: y :: ys)).toList ++ rest
        = (newLine level).toList ++ ((prettyAt level x).toList
          ++ ',' :: ((prettyItems level (y :: ys)).toList ++ rest)) := by
      simp [prettyItems]
    rw [hchars, scan_newLine, hx, scan_comma, hys]
    simp [itemTokens, furtherItems, Value.mapItems]

theorem scan_prettyMembers : ∀ (level : Nat) (ms : List (String × Value)), Value.LeavesMembers Scalar.Readable ms →
    ∀ rest, Ends rest →
    scan .idle ((prettyMembers level ms).toList ++ rest)
      = memberTokens (Value.mapMembers Scalar.reread ms) ++ scan .idle rest
  | level, [], _, rest, _ => rfl
  | level, [(k, x)], h, rest, hrest => by
    have hx := scan_prettyAt level x h.1 rest hrest
    have hchars : (prettyMembers level [(k, x)]).toList ++ rest
        = (newLine level).toList ++
          ((quote k).toList ++ ':' :: ' ' :: ((prettyAt level x).toList ++ rest)) := by
      simp [prettyMembers]
    rw [hchars, scan_newLine, scan_quote, scan_colon, scan_blank, hx]
    simp [memberTokens, furtherMembers, Value.mapMembers]
  | level, (k, x) :: (l, y) :: ns, h, rest, hrest => by
    have hns := scan_prettyMembers level ((l, y) :: ns) h.2 rest hrest
    have hx := scan_prettyAt level x h.1 (',' :: ((prettyMembers level ((l, y) :: ns)).toList ++ rest))
      (ends_cons rfl _)
    have hchars : (prettyMembers level ((k, x) :: (l, y) :: ns)).toList ++ rest
        = (newLine level).toList ++ ((quote k).toList ++ ':' :: ' ' :: ((prettyAt level x).toList
          ++ ',' :: ((prettyMembers level ((l, y) :: ns)).toList ++ rest))) := by
      simp [prettyMembers]
    rw [hchars, scan_newLine, scan_quote, scan_colon, scan_blank, hx, scan_comma, hns]
    simp [memberTokens, furtherMembers, Value.mapMembers]

end

-- On one line the brackets and commas end a number instead of the line ends.
mutual

/-- The text of a value on one line has these tokens too. -/
theorem scan_compact : ∀ v : Value, v.Leaves Scalar.Readable → ∀ rest, Ends rest →
    scan .idle ((compact v).toList ++ rest) = tokensOf (v.mapLeaves Scalar.reread) ++ scan .idle rest
  | .scalar s, h, rest, hrest => scan_leaf h hrest
  | .array xs, h, rest, _ => by
    have hitems := scan_compactItems xs h (']' :: rest) (ends_cons rfl _)
    have hchars : (compact (.array xs)).toList ++ rest = '[' :: ((compactItems xs).toList ++ ']' :: rest) := by
      simp [compact]
    rw [hchars, scan_openBracket, hitems, scan_closeBracket]
    cases xs <;> simp [tokensOf, itemTokens, Value.mapLeaves, Value.mapItems]
  | .object ms, h, rest, _ => by
    have hmembers := scan_compactMembers ms h ('\x7d' :: rest) (ends_cons rfl _)
    have hchars : (compact (.object ms)).toList ++ rest
        = '\x7b' :: ((compactMembers ms).toList ++ '\x7d' :: rest) := by
      simp [compact]
    rw [hchars, scan_openBrace, hmembers, scan_closeBrace]
    cases ms <;> simp [tokensOf, memberTokens, Value.mapLeaves, Value.mapMembers]

theorem scan_compactItems : ∀ xs : List Value, Value.LeavesItems Scalar.Readable xs → ∀ rest, Ends rest →
    scan .idle ((compactItems xs).toList ++ rest) = itemTokens (Value.mapItems Scalar.reread xs) ++ scan .idle rest
  | [], _, rest, _ => rfl
  | [x], h, rest, hrest => by
    have hx := scan_compact x h.1 rest hrest
    rw [compactItems, hx]
    simp [itemTokens, furtherItems, Value.mapItems]
  | x :: y :: ys, h, rest, hrest => by
    have hys := scan_compactItems (y :: ys) h.2 rest hrest
    have hx := scan_compact x h.1 (',' :: ((compactItems (y :: ys)).toList ++ rest)) (ends_cons rfl _)
    have hchars : (compactItems (x :: y :: ys)).toList ++ rest
        = (compact x).toList ++ ',' :: ((compactItems (y :: ys)).toList ++ rest) := by
      simp [compactItems]
    rw [hchars, hx, scan_comma, hys]
    simp [itemTokens, furtherItems, Value.mapItems]

theorem scan_compactMembers : ∀ ms : List (String × Value), Value.LeavesMembers Scalar.Readable ms →
    ∀ rest, Ends rest →
    scan .idle ((compactMembers ms).toList ++ rest)
      = memberTokens (Value.mapMembers Scalar.reread ms) ++ scan .idle rest
  | [], _, rest, _ => rfl
  | [(k, x)], h, rest, hrest => by
    have hx := scan_compact x h.1 rest hrest
    have hchars : (compactMembers [(k, x)]).toList ++ rest
        = (quote k).toList ++ ':' :: ((compact x).toList ++ rest) := by
      simp [compactMembers]
    rw [hchars, scan_quote, scan_colon, hx]
    simp [memberTokens, furtherMembers, Value.mapMembers]
  | (k, x) :: (l, y) :: ns, h, rest, hrest => by
    have hns := scan_compactMembers ((l, y) :: ns) h.2 rest hrest
    have hx := scan_compact x h.1 (',' :: ((compactMembers ((l, y) :: ns)).toList ++ rest)) (ends_cons rfl _)
    have hchars : (compactMembers ((k, x) :: (l, y) :: ns)).toList ++ rest
        = (quote k).toList ++ ':' :: ((compact x).toList
          ++ ',' :: ((compactMembers ((l, y) :: ns)).toList ++ rest)) := by
      simp [compactMembers]
    rw [hchars, scan_quote, scan_colon, hx, scan_comma, hns]
    simp [memberTokens, furtherMembers, Value.mapMembers]

end

theorem ends_nil : Ends [] :=
  fun c cs heq => by cases heq

/-- A leaf without a double is read as itself. -/
theorem reread_of_integral {s : Scalar} (h : s.Integral) : s.Readable ∧ s.reread = s := by
  cases s with
  | number n =>
    cases n with
    | integer i => exact ⟨⟨_, Number.reads_integer h⟩, congrArg Scalar.number (Number.reads_integer h).reread_eq⟩
    | double x => exact h.elim
  | _ => exact ⟨trivial, rfl⟩

theorem readable_of_integral {v : Value} (h : v.Integral) : v.Leaves Scalar.Readable :=
  h.leaves.imp fun _ hs => (reread_of_integral hs).1

theorem mapLeaves_reread_of_integral {v : Value} (h : v.Integral) : v.mapLeaves Scalar.reread = v :=
  Value.mapLeaves_eq_self (fun _ hs => (reread_of_integral hs).2) h.leaves

theorem tokens_compact {v : Value} (h : v.Integral) : tokens (compact v) = tokensOf v := by
  have hscan := scan_compact v (readable_of_integral h) [] ends_nil
  rw [mapLeaves_reread_of_integral h] at hscan
  simpa [tokens, scan] using hscan

theorem tokens_prettyAt {v : Value} (h : v.Integral) (level : Nat) : tokens (prettyAt level v) = tokensOf v := by
  have hscan := scan_prettyAt level v (readable_of_integral h) [] ends_nil
  rw [mapLeaves_reread_of_integral h] at hscan
  simpa [tokens, scan] using hscan

/-! ## Reading -/

variable {limit : Nat}

theorem readInside_leaf (s : Scalar) (outer : List Container) (ts : List Token) :
    readInside limit outer (leafToken s :: ts) = closeInside limit outer (.scalar s) ts := by
  cases s <;> simp [leafToken, readInside]

/-- No value starts with a closing bracket, by which an array without items is known. -/
theorem exists_tokensOf_eq_cons (v : Value) : ∃ t ts, tokensOf v = t :: ts ∧ t ≠ .closeBracket := by
  cases v with
  | scalar s => cases s <;> exact ⟨_, _, rfl, nofun⟩
  | array xs => cases xs <;> exact ⟨_, _, rfl, nofun⟩
  | object ms => cases ms <;> exact ⟨_, _, rfl, nofun⟩

/-- The opening bracket of an array with items. -/
theorem readInside_openBracket {outer : List Container} (h : outer.length < limit) (v : Value)
    (ts : List Token) :
    readInside limit outer (.openBracket :: (tokensOf v ++ ts))
      = readInside limit (.array [] :: outer) (tokensOf v ++ ts) := by
  cases v with
  | scalar s => cases s <;> simp [tokensOf, leafToken, readInside, h]
  | array xs => cases xs <;> simp [tokensOf, readInside, h]
  | object ms => cases ms <;> simp [tokensOf, readInside, h]

theorem readInside_openBracket_deep {outer : List Container} (h : ¬ outer.length < limit) (v : Value)
    (ts : List Token) :
    readInside limit outer (.openBracket :: (tokensOf v ++ ts)) = none := by
  cases v with
  | scalar s => cases s <;> simp [tokensOf, leafToken, readInside, h]
  | array xs => cases xs <;> simp [tokensOf, readInside, h]
  | object ms => cases ms <;> simp [tokensOf, readInside, h]

mutual

/-- A value is read from its tokens, if it does not nest too deep inside the containers that are open. -/
theorem readInside_tokensOf : ∀ (v : Value) (outer : List Container) (ts : List Token), v.WellFormed →
    outer.length + v.depth ≤ limit →
    readInside limit outer (tokensOf v ++ ts) = closeInside limit outer v ts
  | .scalar s, outer, ts, _, _ => readInside_leaf s outer ts
  | .array [], outer, ts, _, hdepth => by
    have hlimit : outer.length < limit := by
      simp only [Value.depth] at hdepth
      omega
    simp [tokensOf, readInside, hlimit]
  | .object [], outer, ts, _, hdepth => by
    have hlimit : outer.length < limit := by
      simp only [Value.depth] at hdepth
      omega
    simp [tokensOf, readInside, hlimit]
  | .array (x :: xs), outer, ts, h, hdepth => by
    simp only [Value.depth, Value.depthItems] at hdepth
    have hlimit : outer.length < limit := by omega
    have hx := readInside_tokensOf x (.array [] :: outer) (furtherItems xs ++ .closeBracket :: ts) h.1
      (by rw [List.length_cons]; omega)
    have hxs := closeInside_furtherItems xs [] x outer ts h.2 (by omega)
    simp only [tokensOf, List.cons_append, List.append_assoc, List.nil_append]
    rw [readInside_openBracket hlimit, hx, hxs]
    rfl
  | .object ((k, x) :: ms), outer, ts, h, hdepth => by
    simp only [Value.depth, Value.depthMembers] at hdepth
    have hlimit : outer.length < limit := by omega
    have hx := readInside_tokensOf x (.object [] k :: outer) (furtherMembers ms ++ .closeBrace :: ts) h.2.1
      (by rw [List.length_cons]; omega)
    have hms := closeInside_furtherMembers ms [] k x outer ts h.2.2 (by omega)
    have hopen : ∀ ts, readInside limit outer (.openBrace :: .text (some k) :: .colon :: ts)
        = readInside limit (.object [] k :: outer) ts := fun ts => by simp [readInside, hlimit]
    simp only [tokensOf, List.cons_append, List.append_assoc, List.nil_append]
    rw [hopen, hx, hms]
    simp [Dictionary.ofList_of_sorted h.1]

/-- An item is followed by others and the end of its array. -/
theorem closeInside_furtherItems : ∀ (xs done : List Value) (v : Value) (outer : List Container)
    (ts : List Token), Value.WellFormedItems xs → outer.length + 1 + Value.depthItems xs ≤ limit →
    closeInside limit (.array done :: outer) v (furtherItems xs ++ .closeBracket :: ts)
      = closeInside limit outer (.array (done.reverse ++ v :: xs)) ts
  | [], done, v, outer, ts, _, _ => by simp [furtherItems, closeInside]
  | y :: ys, done, v, outer, ts, h, hdepth => by
    simp only [Value.depthItems] at hdepth
    have hy := readInside_tokensOf y (.array (v :: done) :: outer) (furtherItems ys ++ .closeBracket :: ts) h.1
      (by rw [List.length_cons]; omega)
    have hys := closeInside_furtherItems ys (v :: done) y outer ts h.2 (by omega)
    have hcomma : ∀ ts, closeInside limit (.array done :: outer) v (.comma :: ts)
        = readInside limit (.array (v :: done) :: outer) ts := fun ts => by simp [closeInside]
    simp only [furtherItems, List.cons_append, List.append_assoc]
    rw [hcomma, hy, hys]
    simp

/-- A member is followed by others and the end of its object. -/
theorem closeInside_furtherMembers : ∀ (ms done : List (String × Value)) (k : String) (v : Value)
    (outer : List Container) (ts : List Token), Value.WellFormedMembers ms →
    outer.length + 1 + Value.depthMembers ms ≤ limit →
    closeInside limit (.object done k :: outer) v (furtherMembers ms ++ .closeBrace :: ts)
      = closeInside limit outer (.object (Dictionary.ofList (done.reverse ++ (k, v) :: ms))) ts
  | [], done, k, v, outer, ts, _, _ => by simp [furtherMembers, closeInside]
  | (l, y) :: ns, done, k, v, outer, ts, h, hdepth => by
    simp only [Value.depthMembers] at hdepth
    have hy := readInside_tokensOf y (.object ((k, v) :: done) l :: outer)
      (furtherMembers ns ++ .closeBrace :: ts) h.1 (by rw [List.length_cons]; omega)
    have hns := closeInside_furtherMembers ns ((k, v) :: done) l y outer ts h.2 (by omega)
    have hcomma : ∀ ts, closeInside limit (.object done k :: outer) v (.comma :: .text (some l) :: .colon :: ts)
        = readInside limit (.object ((k, v) :: done) l :: outer) ts := fun ts => by simp [closeInside]
    simp only [furtherMembers, List.cons_append, List.append_assoc]
    rw [hcomma, hy, hns]
    simp

end

mutual

/-- A value is not read from its tokens if it nests too deep inside the containers that are open. -/
theorem readInside_tokensOf_deep : ∀ (v : Value) (outer : List Container) (ts : List Token), v.WellFormed →
    outer.length ≤ limit → limit < outer.length + v.depth → readInside limit outer (tokensOf v ++ ts) = none
  | .scalar s, outer, ts, _, houter, hdeep => by
    rw [Value.depth] at hdeep
    omega
  | .array [], outer, ts, _, _, hdeep => by
    have hlimit : ¬ outer.length < limit := by
      simp only [Value.depth, Value.depthItems] at hdeep
      omega
    simp [tokensOf, readInside, hlimit]
  | .object [], outer, ts, _, _, hdeep => by
    have hlimit : ¬ outer.length < limit := by
      simp only [Value.depth, Value.depthMembers] at hdeep
      omega
    simp [tokensOf, readInside, hlimit]
  | .array (x :: xs), outer, ts, h, _, hdeep => by
    simp only [Value.depth, Value.depthItems] at hdeep
    simp only [tokensOf, List.cons_append, List.append_assoc, List.nil_append]
    by_cases hlimit : outer.length < limit
    · rw [readInside_openBracket hlimit]
      by_cases hx : (Container.array [] :: outer).length + x.depth ≤ limit
      · rw [readInside_tokensOf x _ _ h.1 hx]
        rw [List.length_cons] at hx
        exact closeInside_furtherItems_deep xs [] x outer ts h.2 hlimit (by omega)
      · exact readInside_tokensOf_deep x _ _ h.1 hlimit (by omega)
    · exact readInside_openBracket_deep hlimit x _
  | .object ((k, x) :: ms), outer, ts, h, _, hdeep => by
    simp only [Value.depth, Value.depthMembers] at hdeep
    simp only [tokensOf, List.cons_append, List.append_assoc, List.nil_append]
    by_cases hlimit : outer.length < limit
    · have hopen : ∀ ts, readInside limit outer (.openBrace :: .text (some k) :: .colon :: ts)
          = readInside limit (.object [] k :: outer) ts := fun ts => by simp [readInside, hlimit]
      rw [hopen]
      by_cases hx : (Container.object [] k :: outer).length + x.depth ≤ limit
      · rw [readInside_tokensOf x _ _ h.2.1 hx]
        rw [List.length_cons] at hx
        exact closeInside_furtherMembers_deep ms [] k x outer ts h.2.2 hlimit (by omega)
      · exact readInside_tokensOf_deep x _ _ h.2.1 hlimit (by omega)
    · simp [readInside, hlimit]

/-- One of the items that follow another one nests too deep. -/
theorem closeInside_furtherItems_deep : ∀ (xs done : List Value) (v : Value) (outer : List Container)
    (ts : List Token), Value.WellFormedItems xs → outer.length < limit →
    limit < outer.length + 1 + Value.depthItems xs →
    closeInside limit (.array done :: outer) v (furtherItems xs ++ .closeBracket :: ts) = none
  | [], done, v, outer, ts, _, hlimit, hdeep => by
    rw [Value.depthItems] at hdeep
    omega
  | y :: ys, done, v, outer, ts, h, hlimit, hdeep => by
    have hcomma : ∀ ts, closeInside limit (.array done :: outer) v (.comma :: ts)
        = readInside limit (.array (v :: done) :: outer) ts := fun ts => by simp [closeInside]
    simp only [Value.depthItems] at hdeep
    simp only [furtherItems, List.cons_append, List.append_assoc]
    rw [hcomma]
    by_cases hy : (Container.array (v :: done) :: outer).length + y.depth ≤ limit
    · rw [readInside_tokensOf y _ _ h.1 hy]
      rw [List.length_cons] at hy
      exact closeInside_furtherItems_deep ys (v :: done) y outer ts h.2 hlimit (by omega)
    · exact readInside_tokensOf_deep y _ _ h.1 hlimit (by omega)

/-- The value of one of the members that follow another one nests too deep. -/
theorem closeInside_furtherMembers_deep : ∀ (ms done : List (String × Value)) (k : String) (v : Value)
    (outer : List Container) (ts : List Token), Value.WellFormedMembers ms → outer.length < limit →
    limit < outer.length + 1 + Value.depthMembers ms →
    closeInside limit (.object done k :: outer) v (furtherMembers ms ++ .closeBrace :: ts) = none
  | [], done, k, v, outer, ts, _, hlimit, hdeep => by
    rw [Value.depthMembers] at hdeep
    omega
  | (l, y) :: ns, done, k, v, outer, ts, h, hlimit, hdeep => by
    have hcomma : ∀ ts, closeInside limit (.object done k :: outer) v (.comma :: .text (some l) :: .colon :: ts)
        = readInside limit (.object ((k, v) :: done) l :: outer) ts := fun ts => by simp [closeInside]
    simp only [Value.depthMembers] at hdeep
    simp only [furtherMembers, List.cons_append, List.append_assoc]
    rw [hcomma]
    by_cases hy : (Container.object ((k, v) :: done) l :: outer).length + y.depth ≤ limit
    · rw [readInside_tokensOf y _ _ h.1 hy]
      rw [List.length_cons] at hy
      exact closeInside_furtherMembers_deep ns ((k, v) :: done) l y outer ts h.2 hlimit (by omega)
    · exact readInside_tokensOf_deep y _ _ h.1 hlimit (by omega)

end

/-- A value is read from its tokens alone. -/
theorem valueOf?_tokensOf {v : Value} (h : v.WellFormed) (hdepth : v.depth ≤ limit) :
    valueOf? limit (tokensOf v) = some v := by
  have hread : readInside limit [] (tokensOf v ++ []) = closeInside limit [] v [] :=
    readInside_tokensOf v [] [] h (by simpa using hdepth)
  rw [List.append_nil] at hread
  rw [valueOf?, readValue?, hread]
  rfl

theorem valueOf?_tokensOf_deep {v : Value} (h : v.WellFormed) (hdepth : limit < v.depth) :
    valueOf? limit (tokensOf v) = none := by
  have hread : readInside limit [] (tokensOf v ++ []) = none :=
    readInside_tokensOf_deep v [] [] h (Nat.zero_le _) (by simpa using hdepth)
  rw [List.append_nil] at hread
  rw [valueOf?, readValue?, hread]

/-- A tree with readable leaves is read back from its text, with every number as it is read, unless it nests too
deep. Only blanks may follow the text. -/
theorem parse?_pretty_append_eq {v : Value} (hwf : v.WellFormed) (hleaves : v.Leaves Scalar.Readable)
    {rest : List Char} (hrest : Ends rest) (hblank : scan .idle rest = []) :
    parse? (pretty v ++ String.ofList rest)
      = if v.depth ≤ depthLimit then some (v.mapLeaves Scalar.reread) else none := by
  have htokens : tokens (pretty v ++ String.ofList rest) = tokensOf (v.mapLeaves Scalar.reread) := by
    rw [tokens, String.toList_append, String.toList_ofList, pretty, scan_prettyAt 0 v hleaves rest hrest,
      hblank, List.append_nil]
  have hwf' := hwf.mapLeaves Scalar.reread
  have hdepth := Value.depth_mapLeaves Scalar.reread v
  rw [parse?, parseWithin?, htokens]
  split
  · rename_i hle
    exact valueOf?_tokensOf hwf' (hdepth.trans_le hle)
  · rename_i hgt
    exact valueOf?_tokensOf_deep hwf' (by omega)

/-- A tree that has a JSON text from which it is read. -/
structure Storable (v : Value) : Prop where
  wellFormed : v.WellFormed
  integral : v.Integral
  depth_le : v.depth ≤ depthLimit

/-- A tree is read back from its text, if nothing but blanks follows it. -/
theorem parse?_pretty_append {v : Value} (h : Storable v) {rest : List Char} (hrest : Ends rest)
    (hblank : scan .idle rest = []) : parse? (pretty v ++ String.ofList rest) = some v := by
  rw [parse?_pretty_append_eq h.wellFormed (readable_of_integral h.integral) hrest hblank, if_pos h.depth_le,
    mapLeaves_reread_of_integral h.integral]

theorem parse?_pretty {v : Value} (h : Storable v) : parse? (pretty v) = some v := by
  have hparse := parse?_pretty_append h ends_nil rfl
  rwa [String.ofList_nil, String.append_empty] at hparse

theorem parse?_prettyLine {v : Value} (h : Storable v) : parse? (pretty v ++ "\n") = some v :=
  parse?_pretty_append h (ends_cons rfl []) rfl

end Json

end ConfigUpdate
