import ConfigUpdate.Proofs.DecimalScaling
import ConfigUpdate.Proofs.NumberTexts
import ConfigUpdate.Proofs.ShortestDecimals

/-!
# Texts of doubles

The text of a decimal is the one of a literal of the same value (`Decimal.magnitude_literal`), and a literal that
stays below the bound has a value. So every double is read as some number from its text
(`Number.isSome_value?_doubleLiteral`); only for the three greatest numbers the bound is not enough.
-/

namespace ConfigUpdate

namespace Json

/-! ## Digits -/

theorem ofDigitChars_lt {cs : List Char} (h : ∀ c ∈ cs, c.isDigit = true) :
    Nat.ofDigitChars 10 cs 0 < 10 ^ cs.length := by
  induction cs with
  | nil => exact Nat.one_pos
  | cons c cs ih =>
    obtain ⟨hc, hcs⟩ := List.forall_mem_cons.1 h
    have hdigit : c.toNat - '0'.toNat ≤ 9 := by
      have hzero : '0'.toNat = 48 := rfl
      have hnine : '9'.toNat = 57 := rfl
      have hbounds := Char.isDigit_iff_toNat.1 hc
      omega
    have hrest := ih hcs
    have hlead : 10 ^ cs.length * (c.toNat - '0'.toNat) ≤ 10 ^ cs.length * 9 := Nat.mul_le_mul_left _ hdigit
    rw [Nat.ofDigitChars_cons, Nat.mul_zero, Nat.zero_add, Nat.ofDigitChars_eq_ofDigitChars_zero, List.length_cons,
      Nat.pow_succ]
    omega

/-- Digits are taken from the front as long as they fit into 64 bits. -/
theorem takeDigits_spec (cs : List Char) {n : Nat} (hn : n < UInt64.size) :
    ∃ taken rest, cs = taken ++ rest ∧
      Number.takeDigits n cs = (Nat.ofDigitChars 10 taken n, taken.length, rest) ∧
      Nat.ofDigitChars 10 taken n < UInt64.size := by
  induction cs generalizing n with
  | nil => exact ⟨[], [], rfl, rfl, hn⟩
  | cons c cs ih =>
    by_cases hfits : 10 * n + (c.toNat - '0'.toNat) < UInt64.size
    · obtain ⟨taken, rest, rfl, htake, hlt⟩ := ih hfits
      refine ⟨c :: taken, rest, rfl, ?_, hlt⟩
      simp only [Number.takeDigits, if_pos hfits, htake, Nat.ofDigitChars_cons, List.length_cons]
    · exact ⟨[], c :: cs, rfl, by simp only [Number.takeDigits, if_neg hfits]; rfl, hn⟩

end Json

namespace Number.Literal

/-- The absolute value of what a literal denotes. -/
def magnitude (l : Literal) : ℚ :=
  Nat.ofDigitChars 10 (l.whole ++ l.fraction.getD []) 0 *
    10 ^ (l.exponent.getD 0 - ((l.fraction.getD []).length : Int))

/-- A literal has a value if it does not exceed the bound and its whole part fits into 64 bits. -/
theorem isSome_value? {l : Literal} (hwhole : Nat.ofDigitChars 10 l.whole 0 < UInt64.size)
    (h : l.magnitude ≤ Binary64.readBound) : l.value?.isSome := by
  obtain ⟨taken, rest, hdigits, htake, hlt⟩ := Json.takeDigits_spec (l.fraction.getD []) hwhole
  obtain ⟨n, hn⟩ : ∃ n, n = Nat.ofDigitChars 10 taken (Nat.ofDigitChars 10 l.whole 0) := ⟨_, rfl⟩
  -- What the digits that do not fit add to the value is lost, so the decimal that is read is no greater.
  have hle : (n : ℚ) * 10 ^ (l.exponent.getD 0 - (taken.length : Int)) ≤ l.magnitude := by
    have hvalue : Nat.ofDigitChars 10 (l.whole ++ l.fraction.getD []) 0
        = 10 ^ rest.length * n + Nat.ofDigitChars 10 rest 0 := by
      rw [hdigits, Nat.ofDigitChars_append, Nat.ofDigitChars_append, ← hn,
        Nat.ofDigitChars_eq_ofDigitChars_zero]
    have hlength : ((l.fraction.getD []).length : Int) = taken.length + rest.length := by
      rw [hdigits, List.length_append]
      push_cast
      rfl
    have hsplit : l.exponent.getD 0 - (taken.length : Int)
        = (l.exponent.getD 0 - ((l.fraction.getD []).length : Int)) + (rest.length : Int) := by
      omega
    have hpow : (0 : ℚ) < 10 ^ (l.exponent.getD 0 - ((l.fraction.getD []).length : Int)) := by positivity
    have hrest : (0 : ℚ) ≤ Nat.ofDigitChars 10 rest 0 := by positivity
    rw [magnitude, hvalue, hsplit, zpow_add₀ (by norm_num), zpow_natCast]
    push_cast
    nlinarith
  have hdouble := Binary64.isSome_ofDecimal? l.negative (hn ▸ hlt) (hle.trans h)
  have hcases : l.value?.isSome ∨ l.value? = (Binary64.ofDecimal? l.negative n
      (l.exponent.getD 0 - (taken.length : Int))).map double := by
    have hexponent : (([] : List Char).length : Int) - taken.length + l.exponent.getD 0
        = l.exponent.getD 0 - (taken.length : Int) := by
      rw [List.length_nil]
      omega
    simp only [value?, Json.takeDigits_eq hwhole, htake, hexponent, ← hn]
    split_ifs
    · exact .inl rfl
    · exact .inr rfl
    · exact .inl rfl
    · exact .inr rfl
  rcases hcases with hsome | heq
  · exact hsome
  · rw [heq, Option.isSome_map]
    exact hdouble

end Number.Literal

namespace Decimal

open Number

variable {d : Decimal}

/-! ## The literal of a decimal -/

/-- The literal of a decimal, in the layout that its leading exponent asks for. -/
def literal (negative : Bool) (d : Decimal) : Literal :=
  let text := Nat.toDigits 10 d.digits
  let lead : Int := text.length + d.exponent - 1
  if 0 ≤ lead ∧ lead ≤ 15 then
    if text.length ≤ lead.toNat + 1 then
      ⟨negative, text ++ List.replicate (lead.toNat + 1 - text.length) '0', some ['0'], none⟩
    else ⟨negative, text.take (lead.toNat + 1), some (text.drop (lead.toNat + 1)), none⟩
  else if -5 ≤ lead ∧ lead < 0 then
    ⟨negative, ['0'], some (List.replicate ((-lead).toNat - 1) '0' ++ text), none⟩
  else ⟨negative, text.take 1, if text.length = 1 then none else some (text.drop 1), some lead⟩

theorem chars_literal (negative : Bool) (d : Decimal) :
    (literal negative d).chars = (if negative then ['-'] else []) ++ d.render.toList := by
  have htext : (digitText d).toList = Nat.toDigits 10 d.digits := String.toList_ofList
  have hcount : (digitText d).length = (Nat.toDigits 10 d.digits).length := by rw [← htext, String.length_toList]
  unfold literal render
  dsimp only
  rw [hcount]
  split
  · split
    · simp [Literal.chars, Literal.pointChars, Literal.powerChars, htext, zeros]
    · simp [Literal.chars, Literal.pointChars, Literal.powerChars, htext]
  · split
    · simp [Literal.chars, Literal.pointChars, Literal.powerChars, htext, zeros]
    · obtain ⟨lead, hlead⟩ : ∃ lead : Int, lead = (Nat.toDigits 10 d.digits).length + d.exponent - 1 :=
        ⟨_, rfl⟩
      have hpower : (if 0 ≤ lead then "e+" ++ toString lead.toNat else "e-" ++ toString (-lead).toNat).toList
          = Literal.powerChars (some lead) := by
        split
        · have hnat : lead.toNat = lead.natAbs := by omega
          have hsign : ¬ lead < 0 := by omega
          simp [Literal.powerChars, hnat, hsign, Nat.repr_eq_ofList_toDigits]
        · have hnat : (-lead).toNat = lead.natAbs := by omega
          have hsign : lead < 0 := by omega
          simp [Literal.powerChars, hnat, hsign, Nat.repr_eq_ofList_toDigits]
      rw [← hlead, Literal.chars, String.toList_append, String.toList_append, hpower]
      by_cases hone : (Nat.toDigits 10 d.digits).length = 1
      · simp [Literal.pointChars, htext, hone]
      · simp [Literal.pointChars, htext, hone]

/-- The digits of a literal are those of the decimal, with zeros around them. -/
theorem digits_literal (negative : Bool) (d : Decimal) : ∃ before after : Nat,
    (literal negative d).whole ++ (literal negative d).fraction.getD []
        = List.replicate before '0' ++ (Nat.toDigits 10 d.digits ++ List.replicate after '0') ∧
      (literal negative d).exponent.getD 0 - (((literal negative d).fraction.getD []).length : Int)
        = d.exponent - after := by
  obtain ⟨text, htext⟩ : ∃ text, text = Nat.toDigits 10 d.digits := ⟨_, rfl⟩
  have hlength : 0 < text.length := htext ▸ Nat.length_toDigits_pos
  unfold literal
  rw [← htext]
  dsimp only
  split
  · split
    · refine ⟨0, d.exponent.toNat + 1, ?_, ?_⟩
      · have hcount : (text.length + d.exponent - 1).toNat + 1 - text.length = d.exponent.toNat := by omega
        rw [hcount, List.replicate_succ']
        simp
      · simp only [Option.getD_none, Option.getD_some, List.length_singleton]
        omega
    · refine ⟨0, 0, ?_, ?_⟩
      · simp
      · simp only [Option.getD_none, Option.getD_some, List.length_drop]
        omega
  · split
    · refine ⟨(-(text.length + d.exponent - 1)).toNat - 1 + 1, 0, ?_, ?_⟩
      · simp [List.replicate_succ]
      · simp only [Option.getD_none, Option.getD_some, List.length_append, List.length_replicate]
        omega
    · refine ⟨0, 0, ?_, ?_⟩
      · split
        · rename_i hone
          simp [List.take_of_length_le hone.le]
        · rw [Option.getD_some, List.take_append_drop]
          simp
      · split
        · simp only [Option.getD_none, Option.getD_some, List.length_nil]
          omega
        · simp only [Option.getD_some, List.length_drop]
          omega

theorem isDigit_of_mem_digits_literal {negative : Bool} {c : Char}
    (hc : c ∈ (literal negative d).whole ++ (literal negative d).fraction.getD []) : c.isDigit = true := by
  obtain ⟨before, after, hdigits, -⟩ := digits_literal negative d
  rw [hdigits] at hc
  obtain hc | hc := List.mem_append.1 hc
  · exact (List.mem_replicate.1 hc).2 ▸ rfl
  obtain hc | hc := List.mem_append.1 hc
  · exact Json.isDigit_of_mem_toDigits hc
  · exact (List.mem_replicate.1 hc).2 ▸ rfl

theorem magnitude_literal (negative : Bool) (d : Decimal) : (literal negative d).magnitude = d.value := by
  obtain ⟨before, after, hdigits, hexponent⟩ := digits_literal negative d
  have hvalue : Nat.ofDigitChars 10
      (List.replicate before '0' ++ (Nat.toDigits 10 d.digits ++ List.replicate after '0')) 0
      = 10 ^ after * d.digits := by
    rw [Nat.ofDigitChars_append, Nat.ofDigitChars_append, Nat.ofDigitChars_replicate_zero,
      Nat.ofDigitChars_replicate_zero, Nat.mul_zero, Nat.ofDigitChars_ten_toDigits]
  rw [Literal.magnitude, hdigits, hexponent, hvalue, value, zpow_sub₀ (by norm_num), zpow_natCast]
  push_cast
  field_simp

theorem length_whole_literal (negative : Bool) (d : Decimal) : (literal negative d).whole.length ≤ 16 := by
  unfold literal
  dsimp only
  split
  · split
    · rw [List.length_append, List.length_replicate]
      omega
    · rw [List.length_take]
      omega
  · split
    · exact Nat.one_le_ofNat
    · rw [List.length_take]
      omega

/-- The whole part of a decimal fits into 64 bits. -/
theorem whole_literal_lt (negative : Bool) (d : Decimal) :
    Nat.ofDigitChars 10 (literal negative d).whole 0 < UInt64.size := by
  have hdigits := Json.ofDigitChars_lt fun c (hc : c ∈ (literal negative d).whole) =>
    isDigit_of_mem_digits_literal (List.mem_append_left _ hc)
  calc Nat.ofDigitChars 10 (literal negative d).whole 0 < 10 ^ (literal negative d).whole.length := hdigits
    _ ≤ 10 ^ 16 := Nat.pow_le_pow_right (by omega) (length_whole_literal negative d)
    _ < UInt64.size := by decide

theorem spelled_literal (negative : Bool) (hd : d.digits ≠ 0) : (literal negative d).Spelled := by
  obtain ⟨c, cs, htext⟩ := List.exists_cons_of_ne_nil (Nat.toDigits_ne_nil (b := 10) (n := d.digits))
  have hc : c ≠ '0' := by
    rintro rfl
    exact Json.head?_toDigits_ne (Nat.pos_of_ne_zero hd) (by rw [htext, List.head?_cons])
  have hlayout : (literal negative d).whole ≠ [] ∧
      ¬ ((literal negative d).whole.length > 1 ∧ (literal negative d).whole.head? = some '0') ∧
      (literal negative d).fraction ≠ some [] := by
    unfold literal
    rw [htext]
    dsimp only
    split
    · split
      · simp [hc]
      · rename_i hlt
        have hdrop : ¬ cs.length ≤ (((c :: cs).length : Int) + d.exponent - 1).toNat := by
          rw [List.length_cons] at hlt ⊢
          omega
        simpa [hc, List.drop_eq_nil_iff] using hdrop
    · split
      · simp
      · by_cases hone : cs = []
        · simp [hone]
        · simp [hone]
  have hdigit {c : Char} : c ∈ (literal negative d).whole ++ (literal negative d).fraction.getD [] →
      c.isDigit = true := isDigit_of_mem_digits_literal
  refine ⟨hlayout.1, fun c hc => hdigit (List.mem_append_left _ hc), hlayout.2.1, hlayout.2.2,
    fun ds hds c hc => ?_⟩
  rw [hds, Option.getD_some] at hdigit
  exact hdigit (List.mem_append_right _ hc)

end Decimal

namespace Number

variable {x : Binary64}

/-! ## The literal of a double -/

/-- The literal of a double. -/
def doubleLiteral (x : Binary64) : Literal :=
  if x.isZero then ⟨x.negative, ['0'], some ['0'], none⟩ else Decimal.literal x.negative (Decimal.shortest x)

theorem chars_doubleLiteral (x : Binary64) : (doubleLiteral x).chars = x.render.toList := by
  unfold doubleLiteral Binary64.render
  split
  · cases x.negative <;> rfl
  · rw [Decimal.chars_literal, String.toList_append]
    cases x.negative <;> rfl

theorem spelled_doubleLiteral (hx : x.Fits) : (doubleLiteral x).Spelled := by
  unfold doubleLiteral
  split
  · refine ⟨by simp, by simp, by simp, by simp, ?_⟩
    rintro ds ⟨⟩ c hc
    obtain rfl := List.mem_singleton.1 hc
    rfl
  · rename_i hzero
    have hpos : 0 < x.significand := Nat.pos_of_ne_zero fun h => hzero (by simp [Binary64.isZero, h])
    exact Decimal.spelled_literal x.negative (Decimal.shortest_spec hpos hx.significand_lt).1

/-- The three greatest numbers are read, although the bound does not cover their decimals. -/
theorem isSome_value?_greatest : ∀ negative : Bool, ∀ s ∈ [9007199254740989, 9007199254740990, 9007199254740991],
    (Decimal.literal negative (Decimal.shortest ⟨negative, s, 971⟩)).value?.isSome := by
  decide +kernel

/-- Below the three greatest numbers the decimals stay below the bound. -/
theorem value_shortest_le (hpos : 0 < x.significand) (hx : x.Fits)
    (h : x.exponent ≤ 970 ∨ x.significand < 9007199254740989) :
    (Decimal.shortest x).value ≤ Binary64.readBound := by
  obtain ⟨unit, hunit⟩ : ∃ unit : ℚ, unit = 2 ^ (x.exponent - 2) := ⟨_, rfl⟩
  have hle := (Decimal.shortest_spec hpos hx.significand_lt).2
  have hunitPos : 0 < unit := hunit ▸ zpow_pos two_pos _
  rw [← hunit] at hle
  refine hle.trans ?_
  rcases h with hexponent | hsignificand
  · have hsignificand : (x.significand : ℚ) ≤ 9007199254740991 := by
      have hlt := hx.significand_lt
      exact_mod_cast (show x.significand ≤ 9007199254740991 by omega)
    have hunitLe : unit * 4 ≤ Binary64.halfUnit := by
      rw [hunit, Binary64.halfUnit_eq, show (4 : ℚ) = 2 ^ (2 : Int) by norm_num, ← zpow_add₀ two_ne_zero]
      exact zpow_le_zpow_right₀ one_le_two (by omega)
    unfold Binary64.readBound
    nlinarith
  · have hsignificand : (x.significand : ℚ) ≤ 9007199254740988 := by
      exact_mod_cast (show x.significand ≤ 9007199254740988 by omega)
    have hunitLe : unit * 2 ≤ Binary64.halfUnit := by
      have hexponent : x.exponent ≤ 971 := hx.exponent_le
      rw [hunit, Binary64.halfUnit_eq, ← zpow_add_one₀ two_ne_zero]
      exact zpow_le_zpow_right₀ one_le_two (by omega)
    unfold Binary64.readBound
    nlinarith

theorem isSome_value?_doubleLiteral (hx : x.Fits) : (doubleLiteral x).value?.isSome := by
  unfold doubleLiteral
  split
  · cases x.negative <;> decide +kernel
  rename_i hzero
  have hpos : 0 < x.significand := Nat.pos_of_ne_zero fun h => hzero (by simp [Binary64.isZero, h])
  by_cases hgreat : x.exponent ≤ 970 ∨ x.significand < 9007199254740989
  · refine Literal.isSome_value? (Decimal.whole_literal_lt x.negative _) ?_
    rw [Decimal.magnitude_literal]
    exact value_shortest_le hpos hx hgreat
  · obtain ⟨negative, s, e⟩ := x
    have hs : s < 2 ^ 53 := hx.significand_lt
    have hle : e ≤ 971 := hx.exponent_le
    obtain ⟨hgt, hge⟩ : 970 < e ∧ 9007199254740989 ≤ s := by
      rw [not_or, not_le, not_lt] at hgreat
      exact hgreat
    obtain rfl : e = 971 := by omega
    refine isSome_value?_greatest negative s ?_
    simp only [List.mem_cons, List.not_mem_nil, or_false]
    omega

end Number

end ConfigUpdate
