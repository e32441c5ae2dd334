import ConfigUpdate.Json.Token
import Mathlib.Data.List.TakeDrop
import Mathlib.Data.List.TakeWhile

/-!
# Texts of numbers

The parts of a number are read back from its text: digits without leading zeros, a point and the digits after
it, and a signed exponent, the last two of which may be missing (`Json.literal?_chars`). The text of an integer is
such a text, and the integer is read from it (`Number.reads_integer`).
-/

namespace ConfigUpdate

namespace Number.Literal

/-- The characters of a point and the digits after it. -/
def pointChars : Option (List Char) → List Char
  | none => []
  | some ds => '.' :: ds

/-- The characters of an exponent, which always has a sign. -/
def powerChars : Option Int → List Char
  | none => []
  | some e => 'e' :: (if e < 0 then '-' else '+') :: Nat.toDigits 10 e.natAbs

/-- The characters of a literal. -/
def chars (l : Literal) : List Char :=
  (if l.negative then ['-'] else []) ++ (l.whole ++ (pointChars l.fraction ++ powerChars l.exponent))

/-- The literal has a text: digits on both sides of the point, the first of which is no needless zero. -/
structure Spelled (l : Literal) : Prop where
  whole_ne : l.whole ≠ []
  whole : ∀ c ∈ l.whole, c.isDigit = true
  lead : ¬ (l.whole.length > 1 ∧ l.whole.head? = some '0')
  fraction_ne : l.fraction ≠ some []
  fraction : ∀ ds, l.fraction = some ds → ∀ c ∈ ds, c.isDigit = true

end Number.Literal

namespace Json

open Number Number.Literal

variable {l : Literal} {rest : List Char}

theorem isDigit_of_mem_toDigits {n : Nat} {c : Char} (h : c ∈ Nat.toDigits 10 n) : c.isDigit = true :=
  Nat.isDigit_of_mem_toDigits (by omega) (by omega) h

/-- The characters end here or go on with one that is no digit. -/
def EndsDigits (rest : List Char) : Prop :=
  ∀ c cs, rest = c :: cs → c.isDigit = false

theorem spanDigits_append {ds : List Char} (hds : ∀ c ∈ ds, c.isDigit = true) (hrest : EndsDigits rest) :
    spanDigits (ds ++ rest) = (ds, rest) := by
  rw [spanDigits, List.span_eq_takeWhile_dropWhile, List.takeWhile_append_of_pos hds,
    List.dropWhile_append_of_pos hds]
  cases rest with
  | nil => simp
  | cons c cs => simp [hrest c cs rfl]

theorem spanDigits_eq {ds : List Char} (hds : ∀ c ∈ ds, c.isDigit = true) : spanDigits ds = (ds, []) := by
  have hspan : spanDigits (ds ++ []) = (ds, []) := spanDigits_append hds nofun
  rwa [List.append_nil] at hspan

theorem exponent?_powerChars (e : Option Int) : exponent? (powerChars e) = some (e, []) := by
  cases e with
  | none => rfl
  | some e =>
    have hspan := spanDigits_eq fun c (hc : c ∈ Nat.toDigits 10 e.natAbs) => isDigit_of_mem_toDigits hc
    have hvalue : (Nat.toDigits 10 e.natAbs).foldl (fun n c => 10 * n + (c.toNat - '0'.toNat)) 0 = e.natAbs :=
      Nat.ofDigitChars_ten_toDigits
    cases hdigits : Nat.toDigits 10 e.natAbs with
    | nil => exact absurd hdigits Nat.toDigits_ne_nil
    | cons d ds =>
      rw [hdigits] at hspan hvalue
      by_cases hsign : e < 0
      · have hneg : -(e.natAbs : Int) = e := by omega
        simp only [powerChars, if_pos hsign, hdigits, exponent?, hspan, hvalue, if_true, hneg]
      · have hpos : (e.natAbs : Int) = e := by omega
        simp only [powerChars, if_neg hsign, hdigits, exponent?, hspan, hvalue, if_false, hpos, Bool.false_eq_true]

theorem endsDigits_powerChars (e : Option Int) : EndsDigits (powerChars e) := by
  cases e with
  | none => exact nofun
  | some e =>
    rintro c cs heq
    cases heq
    rfl

theorem fraction?_pointChars {f : Option (List Char)} (hne : f ≠ some [])
    (hdigits : ∀ ds, f = some ds → ∀ c ∈ ds, c.isDigit = true) (e : Option Int) :
    fraction? (pointChars f ++ powerChars e) = some (f, powerChars e) := by
  cases f with
  | none => cases e <;> rfl
  | some ds =>
    have hspan := spanDigits_append (hdigits ds rfl) (endsDigits_powerChars e)
    cases ds with
    | nil => exact absurd rfl hne
    | cons d ds =>
      show fraction? ('.' :: (d :: ds ++ powerChars e)) = _
      simp only [fraction?, hspan]

theorem endsDigits_pointChars (f : Option (List Char)) (e : Option Int) :
    EndsDigits (pointChars f ++ powerChars e) := by
  cases f with
  | none => exact endsDigits_powerChars e
  | some ds =>
    rintro c cs heq
    cases heq
    rfl

/-- The parts of a number are read back from its characters. -/
theorem literal?_chars (h : l.Spelled) : literal? l.chars = some l := by
  obtain ⟨negative, whole, fraction, exponent⟩ := l
  have hspan := spanDigits_append h.whole (endsDigits_pointChars fraction exponent)
  have hfraction := fraction?_pointChars h.fraction_ne h.fraction exponent
  have hwhole := not_or.2 ⟨h.whole_ne, h.lead⟩
  have hexponent := exponent?_powerChars exponent
  dsimp only at hspan hfraction hwhole
  cases negative with
  | true => simp [literal?, chars, hspan, hfraction, hexponent, hwhole]
  | false =>
    cases hdigits : whole with
    | nil => exact absurd hdigits h.whole_ne
    | cons d ds =>
      rw [hdigits] at hspan hwhole
      have hdigit : d.isDigit = true := h.whole d (by simp [hdigits])
      have hchars : chars ⟨false, d :: ds, fraction, exponent⟩
          = d :: (ds ++ (pointChars fraction ++ powerChars exponent)) := rfl
      rw [hchars]
      unfold literal?
      split
      rename_i negative cs heq
      split at heq
      · rename_i cs' hminus
        cases hminus
        exact absurd hdigit (by decide)
      · cases heq
        rw [← List.cons_append]
        simp only [hspan, if_neg hwhole, hfraction]
        simp [hexponent]

theorem numberToken_chars (h : l.Spelled) : numberToken l.chars = .number l.value? := by
  rw [numberToken, literal?_chars h]

/-! ## Scanning -/

theorem inNumber_of_isDigit {c : Char} (h : c.isDigit = true) : inNumber c = true := by
  simp [inNumber, h]

theorem inNumber_of_mem_powerChars {e : Option Int} {c : Char} (hc : c ∈ powerChars e) : inNumber c = true := by
  cases e with
  | none => cases hc
  | some e =>
    obtain rfl | hc := List.mem_cons.1 hc
    · rfl
    obtain rfl | hc := List.mem_cons.1 hc
    · split <;> rfl
    · exact inNumber_of_isDigit (isDigit_of_mem_toDigits hc)

theorem inNumber_of_mem_pointChars {f : Option (List Char)} (hdigits : ∀ ds, f = some ds → ∀ c ∈ ds, c.isDigit = true)
    {c : Char} (hc : c ∈ pointChars f) : inNumber c = true := by
  cases f with
  | none => cases hc
  | some ds =>
    obtain rfl | hc := List.mem_cons.1 hc
    · rfl
    · exact inNumber_of_isDigit (hdigits ds rfl c hc)

/-- The characters of a literal can all stand in a number, and the first one begins one. -/
theorem exists_chars_eq_cons (h : l.Spelled) : ∃ c cs, l.chars = c :: cs ∧ (c.isDigit = true ∨ c = '-') ∧
    ∀ c ∈ cs, inNumber c = true := by
  obtain ⟨negative, whole, fraction, exponent⟩ := l
  have hin : ∀ c ∈ whole ++ (pointChars fraction ++ powerChars exponent), inNumber c = true := by
    intro c hc
    obtain hc | hc := List.mem_append.1 hc
    · exact inNumber_of_isDigit (h.whole c hc)
    obtain hc | hc := List.mem_append.1 hc
    · exact inNumber_of_mem_pointChars h.fraction hc
    · exact inNumber_of_mem_powerChars hc
  cases negative with
  | true => exact ⟨'-', _, rfl, .inr rfl, hin⟩
  | false =>
    cases hdigits : whole with
    | nil => exact absurd hdigits h.whole_ne
    | cons d ds =>
      rw [hdigits] at hin
      exact ⟨d, _, rfl, .inl (h.whole d (by simp [hdigits])), fun c hc => hin c (List.mem_cons_of_mem d hc)⟩

/-- The characters end here or go on with one that cannot stand in a number. Only the character after a number
says that the number is complete. -/
def Ends (rest : List Char) : Prop :=
  ∀ c cs, rest = c :: cs → inNumber c = false

theorem begin?_number {c : Char} (h : c.isDigit = true ∨ c = '-') : begin? c = some ([], .number [c]) := by
  obtain hdigit | rfl := h
  · unfold begin?
    split <;> first
      | exact absurd hdigit (by decide)
      | simp [hdigit]
  · rfl

theorem scan_number {cs : List Char} (hcs : ∀ c ∈ cs, inNumber c = true) {rest : List Char} (hrest : Ends rest)
    (before : List Char) :
    scan (.number before) (cs ++ rest) = numberToken (before.reverse ++ cs) :: scan .idle rest := by
  induction cs generalizing before with
  | nil =>
    rw [List.nil_append, List.append_nil]
    cases rest with
    | nil => rfl
    | cons c cs => simp [scan, hrest c cs rfl]
  | cons c cs ih =>
    obtain ⟨hc, hcs⟩ := List.forall_mem_cons.1 hcs
    rw [List.cons_append]
    simp only [scan, hc, if_true]
    rw [ih hcs, List.reverse_cons, List.append_assoc]
    rfl

/-- The scanner finds the number of a literal in front of what cannot stand in a number. -/
theorem scan_chars (h : l.Spelled) (hrest : Ends rest) :
    scan .idle (l.chars ++ rest) = .number l.value? :: scan .idle rest := by
  obtain ⟨c, cs, hchars, hc, hcs⟩ := exists_chars_eq_cons h
  have hbegin : scan .idle (c :: (cs ++ rest)) = scan (.number [c]) (cs ++ rest) := by
    simp [scan, begin?_number hc]
  rw [← numberToken_chars h, hchars, List.cons_append, hbegin, scan_number hcs hrest]
  rfl

/-! ## Integers -/

theorem head?_toDigits_ne {n : Nat} (hn : 0 < n) : (Nat.toDigits 10 n).head? ≠ some '0' := by
  induction n using Nat.strongRecOn with
  | ind n ih =>
    by_cases hlt : n < 10
    · rw [Nat.toDigits_of_lt_base hlt]
      have hdigit : ∀ n < 10, 0 < n → [n.digitChar].head? ≠ some '0' := by decide
      exact hdigit n hlt hn
    · rw [Nat.toDigits_of_base_le (by omega) (by omega), List.head?_append]
      have hhead := ih (n / 10) (by omega) (by omega)
      cases hdigits : Nat.toDigits 10 (n / 10) with
      | nil => exact absurd hdigits Nat.toDigits_ne_nil
      | cons c cs =>
        rw [hdigits] at hhead
        simpa using hhead

theorem not_leadingZero_toDigits (n : Nat) :
    ¬ ((Nat.toDigits 10 n).length > 1 ∧ (Nat.toDigits 10 n).head? = some '0') := by
  rintro ⟨hlength, hhead⟩
  cases n with
  | zero => simp [Nat.toDigits_of_lt_base] at hlength
  | succ n => exact head?_toDigits_ne (Nat.succ_pos n) hhead

/-- The literal of an integer. -/
def integerLiteral (i : Int) : Literal :=
  ⟨decide (i < 0), Nat.toDigits 10 i.natAbs, none, none⟩

theorem spelled_integerLiteral (i : Int) : (integerLiteral i).Spelled where
  whole_ne := Nat.toDigits_ne_nil
  whole _ hc := isDigit_of_mem_toDigits hc
  lead := not_leadingZero_toDigits i.natAbs
  fraction_ne := nofun
  fraction := nofun

theorem toList_toString (i : Int) : (toString i).toList = (integerLiteral i).chars := by
  cases i with
  | ofNat n => simp [integerLiteral, chars, pointChars, powerChars, Int.repr_eq_if, Nat.repr_eq_ofList_toDigits]
  | negSucc n =>
    simp [integerLiteral, chars, pointChars, powerChars, toString, Int.repr, Nat.repr_eq_ofList_toDigits]

theorem le_ofDigitChars (cs : List Char) (n : Nat) : n ≤ Nat.ofDigitChars 10 cs n := by
  induction cs generalizing n with
  | nil => exact Nat.le_refl n
  | cons c cs ih =>
    rw [Nat.ofDigitChars_cons]
    exact Nat.le_trans (by omega) (ih _)

/-- Digits whose value fits into 64 bits are all taken. -/
theorem takeDigits_eq {cs : List Char} {n : Nat} (h : Nat.ofDigitChars 10 cs n < UInt64.size) :
    Number.takeDigits n cs = (Nat.ofDigitChars 10 cs n, cs.length, []) := by
  induction cs generalizing n with
  | nil => rfl
  | cons c cs ih =>
    rw [Nat.ofDigitChars_cons] at h ⊢
    have hfits := Nat.lt_of_le_of_lt (le_ofDigitChars cs _) h
    simp only [Number.takeDigits, if_pos hfits, ih h, List.length_cons]

theorem value?_integerLiteral {i : Int} (h : Number.fitsInteger i = true) :
    (integerLiteral i).value? = some (.integer i) := by
  have hbounds : -9223372036854775808 ≤ i ∧ i < 18446744073709551616 := by
    simpa [Number.fitsInteger, Int.pow] using h
  have hvalue : Nat.ofDigitChars 10 (Nat.toDigits 10 i.natAbs) 0 = i.natAbs := Nat.ofDigitChars_ten_toDigits
  have hfits : Nat.ofDigitChars 10 (Nat.toDigits 10 i.natAbs) 0 < UInt64.size := by
    rw [hvalue]
    simp only [UInt64.size]
    omega
  have htake := takeDigits_eq hfits
  have hsigned : (if i < 0 then -(i.natAbs : Int) else i.natAbs) = i := by
    split <;> omega
  rw [hvalue] at htake
  simp only [integerLiteral, Number.Literal.value?, htake, decide_eq_true_eq, hsigned, h, true_and]
  rw [if_pos (by omega)]

/-! ## Reading a number back -/

end Json

/-- A number is read as another one from its text. -/
def Number.Reads (n m : Number) : Prop :=
  ∃ l : Literal, l.Spelled ∧ n.render.toList = l.chars ∧ l.value? = some m

/-- The number that is read from the text of a number. -/
def Number.reread (n : Number) : Number :=
  match Json.numberToken n.render.toList with
  | .number (some m) => m
  | _ => n

namespace Scalar

/-- The leaf that is read from the text of a leaf. -/
def reread : Scalar → Scalar
  | .number n => .number n.reread
  | s => s

/-- The leaf is read from its text. -/
def Readable : Scalar → Prop
  | .number n => ∃ m, n.Reads m
  | _ => True

end Scalar

theorem Number.Reads.reread_eq {n m : Number} (h : n.Reads m) : n.reread = m := by
  obtain ⟨l, hspelled, hchars, hvalue⟩ := h
  rw [reread, hchars, Json.numberToken_chars hspelled, hvalue]

/-- An integer is read as itself. -/
theorem Number.reads_integer {i : Int} (h : fitsInteger i = true) : (integer i).Reads (.integer i) :=
  ⟨Json.integerLiteral i, Json.spelled_integerLiteral i, Json.toList_toString i, Json.value?_integerLiteral h⟩

end ConfigUpdate
