import ConfigUpdate.Proofs.DecimalTexts
import ConfigUpdate.Proofs.ReadTrees

/-!
# Numbers in range

An integer is in range if it fits into 64 bits, and a double if it has a finite representation. Every number in
range is read as some number from its text (`Number.exists_reads`), and whatever is read is in range
(`Json.leaves_of_parse?`).
-/

namespace ConfigUpdate

namespace Number

variable {n : Number}

/-- The number is in the range of its kind. -/
def Fits : Number → Prop
  | integer i => fitsInteger i = true
  | double x => x.Fits

/-- A number in range is read as some number from its text. -/
theorem exists_reads (h : n.Fits) : ∃ m, n.Reads m := by
  cases n with
  | integer i => exact ⟨_, reads_integer h⟩
  | double x =>
    obtain ⟨m, hm⟩ := Option.isSome_iff_exists.1 (isSome_value?_doubleLiteral h)
    exact ⟨m, doubleLiteral x, spelled_doubleLiteral h, (chars_doubleLiteral x).symm, hm⟩

/-- What a literal denotes is in range. -/
theorem fits_value? {l : Literal} (h : l.value? = some n) : n.Fits := by
  have hcases : (∃ i, fitsInteger i = true ∧ n = integer i) ∨ ∃ digits k,
      (Binary64.ofDecimal? l.negative digits k).map double = some n := by
    simp only [Literal.value?] at h
    split_ifs at h with hsign hinteger hinteger
    · cases h
      exact .inl ⟨_, hinteger.2.2.2.1, rfl⟩
    · exact .inr ⟨_, _, h⟩
    · cases h
      exact .inl ⟨_, hinteger.2.2.2.1, rfl⟩
    · exact .inr ⟨_, _, h⟩
  obtain ⟨i, hi, rfl⟩ | ⟨digits, k, hdouble⟩ := hcases
  · exact hi
  · obtain ⟨x, hx, rfl⟩ := Option.map_eq_some_iff.1 hdouble
    exact Binary64.fits_ofDecimal? hx

end Number

/-- The numbers among the leaves are in range. -/
def Scalar.Fits : Scalar → Prop
  | .number n => n.Fits
  | _ => True

theorem Scalar.Fits.readable {s : Scalar} (h : s.Fits) : s.Readable := by
  cases s with
  | number n => exact Number.exists_reads h
  | _ => trivial

namespace Json

/-- The leaf of the token is in range. -/
def Token.Fits (t : Token) : Prop :=
  ∀ s, t.leaf? = some s → s.Fits

/-- The token of the word that is begun is in range. -/
def Mode.Fits : Mode → Prop
  | .word _ t => t.Fits
  | _ => True

theorem fits_numberToken (cs : List Char) : (numberToken cs).Fits := by
  intro s hs
  unfold numberToken at hs
  split at hs
  · rename_i l _
    cases hvalue : l.value? with
    | none =>
      rw [hvalue] at hs
      cases hs
    | some n =>
      rw [hvalue] at hs
      cases hs
      exact Number.fits_value? hvalue
  · cases hs

theorem fits_begin? {c : Char} {ts : List Token} {mode : Mode} (h : begin? c = some (ts, mode)) :
    (∀ t ∈ ts, t.Fits) ∧ mode.Fits := by
  have hword {w : Scalar} (hw : w.Fits) : (Token.word w).Fits := by
    rintro s ⟨⟩
    exact hw
  have hplain {t : Token} (ht : t.leaf? = none) : ∀ t' ∈ [t], t'.Fits := by
    intro t' ht' s hs
    rw [List.mem_singleton.1 ht', ht] at hs
    cases hs
  unfold begin? at h
  split at h
  all_goals first
    | (cases h; exact ⟨List.forall_mem_nil _, trivial⟩)
    | (cases h; exact ⟨hplain rfl, trivial⟩)
    | (cases h; exact ⟨List.forall_mem_nil _, hword trivial⟩)
    | skip
  split at h
  · cases h
    exact ⟨List.forall_mem_nil _, trivial⟩
  · cases h

theorem fits_invalid : LeafTokens Scalar.Fits [.invalid] :=
  List.forall_mem_singleton.2 nofun

theorem fits_textToken (ps : List Piece) : (textToken ps).Fits := by
  intro s hs
  unfold textToken at hs
  cases hdecode : decode? ps with
  | none =>
    rw [hdecode] at hs
    cases hs
  | some cs =>
    rw [hdecode] at hs
    cases hs
    trivial

theorem leafTokens_scan (mode : Mode) (h : mode.Fits) (cs : List Char) : LeafTokens Scalar.Fits (scan mode cs) := by
  fun_induction scan mode cs with
  | case1 => exact List.forall_mem_nil _
  | case2 ds => exact List.forall_mem_singleton.2 (fits_numberToken _)
  | case3 c cs ts mode hbegin ih =>
    obtain ⟨hts, hmode⟩ := fits_begin? hbegin
    exact List.forall_mem_append.2 ⟨hts, ih hmode⟩
  | case5 ds c cs _ ih => exact ih h
  | case6 ds c cs _ ih =>
    refine List.forall_mem_cons.2 ⟨fits_numberToken _, ?_⟩
    split
    · rename_i ts mode hbegin
      obtain ⟨hts, hmode⟩ := fits_begin? hbegin
      exact List.forall_mem_append.2 ⟨hts, ih mode hmode⟩
    · exact fits_invalid
  | case7 t c cs ih => exact List.forall_mem_cons.2 ⟨h, ih trivial⟩
  | case8 ls t c cs _ ih => exact ih h
  | case10 ps cs ih => exact List.forall_mem_cons.2 ⟨fits_textToken _, ih trivial⟩
  | case11 ps cs _ ih => exact ih h
  | case13 ps c cs _ _ _ ih => exact ih h
  | case14 ps cs ih => exact ih h
  | case15 ps c cs _ e _ ih => exact ih h
  | case17 ps digits value c cs d _ value' _ ih => exact ih h
  | case18 ps digits value c cs d _ value' _ ih => exact ih h
  | case4 | case9 | case12 | case16 | case19 | case20 => exact fits_invalid

/-- The numbers of what is read are in range. -/
theorem leaves_of_parse? {text : String} {v : Value} (h : parse? text = some v) : v.Leaves Scalar.Fits :=
  holds_of_parseWithin? (built_leaves depthLimit Scalar.Fits) h (leafTokens_scan .idle trivial text.toList)

end Json

end ConfigUpdate
