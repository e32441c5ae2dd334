import ConfigUpdate.Number.Binary64
import Mathlib.Algebra.Order.Field.Power
import Mathlib.Algebra.Order.Field.Rat
import Mathlib.Data.Nat.Log
import Mathlib.Tactic.FieldSimp
import Mathlib.Tactic.Linarith
import Mathlib.Tactic.NormNum
import Mathlib.Tactic.Positivity
import Mathlib.Tactic.Ring

/-!
# Rounding to double precision

A fraction is rounded to a significand that is at most half a unit off at the exponent where it has 53 bits
(`Binary64.Rounds`). So the error is relative, and the only fractions without a result are those that are greater
than the greatest number by half a unit (`Binary64.isSome_ofFraction?`).
-/

namespace ConfigUpdate

namespace Binary64

variable {num den : Nat} {e : Int} {q : ℚ} {x : Binary64}

/-- The absolute value of a number. -/
def magnitude (x : Binary64) : ℚ :=
  x.significand * 2 ^ x.exponent

/-- The significand and the exponent are in their range. -/
structure Fits (x : Binary64) : Prop where
  significand_lt : x.significand < 2 ^ 53
  le_exponent : minExponent ≤ x.exponent
  exponent_le : x.exponent ≤ maxExponent

theorem magnitude_nonneg (x : Binary64) : 0 ≤ x.magnitude := by
  unfold magnitude
  positivity

/-! ## Fractions -/

theorem scaleFraction_pos (num : Nat) (hden : 0 < den) (e : Int) : 0 < (scaleFraction num den e).2 := by
  unfold scaleFraction
  split
  · exact hden
  · exact Nat.mul_pos hden (Nat.pow_pos (by omega))

theorem scaleFraction_fst_pos (hnum : 0 < num) (den : Nat) (e : Int) : 0 < (scaleFraction num den e).1 := by
  unfold scaleFraction
  split
  · exact Nat.mul_pos hnum (Nat.pow_pos (by omega))
  · exact hnum

theorem scaleFraction_eq (num den : Nat) (e : Int) :
    ((scaleFraction num den e).1 : ℚ) / (scaleFraction num den e).2 = num / den * 2 ^ e := by
  unfold scaleFraction
  split
  · rename_i he
    have hpow : (2 : ℚ) ^ e = 2 ^ e.toNat := by rw [← zpow_natCast, Int.toNat_of_nonneg he]
    simp only [Nat.pow_eq, Nat.cast_mul, Nat.cast_pow, Nat.cast_ofNat, hpow]
    ring
  · rename_i he
    have hpow : (2 : ℚ) ^ e = (2 ^ (-e).toNat)⁻¹ := by
      rw [← zpow_natCast, Int.toNat_of_nonneg (by omega), ← zpow_neg, neg_neg]
    simp only [Nat.pow_eq, Nat.cast_mul, Nat.cast_pow, Nat.cast_ofNat, hpow]
    rw [div_mul_eq_div_div, div_eq_mul_inv]

/-- The rounded quotient is at most one half off. -/
theorem abs_divRound_sub_le (num : Nat) (hden : 0 < den) : |(divRound num den : ℚ) - num / den| ≤ 1 / 2 := by
  have hdiv : den * (num / den) + num % den = num := Nat.div_add_mod num den
  have hmod : num % den < den := Nat.mod_lt num hden
  have hbounds : 2 * num ≤ 2 * (divRound num den * den) + den ∧
      2 * (divRound num den * den) ≤ 2 * num + den := by
    simp only [divRound, Bool.or_eq_true, decide_eq_true_eq, Bool.and_eq_true, beq_iff_eq]
    split
    · rw [Nat.add_mul, Nat.mul_comm (num / den)]
      omega
    · rw [Nat.mul_comm (num / den)]
      omega
  have hden' : (0 : ℚ) < den := by exact_mod_cast hden
  have hle : (2 * num : ℚ) ≤ 2 * (divRound num den * den) + den := by exact_mod_cast hbounds.1
  have hge : (2 * (divRound num den * den) : ℚ) ≤ 2 * num + den := by exact_mod_cast hbounds.2
  have hquotient : (num / den : ℚ) * den = num := div_mul_cancel₀ _ hden'.ne'
  rw [abs_le]
  constructor <;> nlinarith

/-! ## The exponent -/

theorem pow_log2_le (hnum : 0 < num) : (2 : ℚ) ^ (num.log2 : Int) ≤ num := by
  rw [zpow_natCast]
  exact_mod_cast Nat.log2_self_le hnum.ne'

theorem lt_pow_log2 (num : Nat) : (num : ℚ) < 2 ^ (num.log2 + 1 : Int) := by
  have hlt : num < 2 ^ (num.log2 + 1) := Nat.lt_log2_self
  exact_mod_cast hlt

/-- The quotient lies between the powers of two that the lengths of its parts say. -/
theorem log2_bounds (hnum : 0 < num) (hden : 0 < den) :
    (2 : ℚ) ^ ((num.log2 : Int) - den.log2 - 1) < num / den ∧
      (num / den : ℚ) < 2 ^ ((num.log2 : Int) - den.log2 + 1) := by
  have hden' : (0 : ℚ) < den := by exact_mod_cast hden
  have hlow := pow_log2_le hnum
  have hhigh := lt_pow_log2 num
  have hdlow := pow_log2_le hden
  have hdhigh := lt_pow_log2 den
  rw [lt_div_iff₀ hden', div_lt_iff₀ hden']
  constructor
  · calc (2 : ℚ) ^ ((num.log2 : Int) - den.log2 - 1) * den
        < 2 ^ ((num.log2 : Int) - den.log2 - 1) * 2 ^ (den.log2 + 1 : Int) := by gcongr
      _ = 2 ^ (num.log2 : Int) := by
        rw [← zpow_add₀ two_ne_zero]
        congr 1
        omega
      _ ≤ num := hlow
  · calc (num : ℚ) < 2 ^ (num.log2 + 1 : Int) := hhigh
      _ = 2 ^ ((num.log2 : Int) - den.log2 + 1) * 2 ^ (den.log2 : Int) := by
        rw [← zpow_add₀ two_ne_zero]
        congr 1
        omega
      _ ≤ 2 ^ ((num.log2 : Int) - den.log2 + 1) * den := by gcongr

/-- The exponent at which a quotient has 53 bits, or the least one if the quotient is too small. -/
theorem exponentFor_spec (hnum : 0 < num) (hden : 0 < den) :
    minExponent ≤ exponentFor num den ∧ (num / den : ℚ) < 2 ^ (exponentFor num den + 53) ∧
      (exponentFor num den = minExponent ∨ (2 : ℚ) ^ (exponentFor num den + 52) ≤ num / den) := by
  obtain ⟨hlow, hhigh⟩ := log2_bounds hnum hden
  obtain ⟨guess, hguess⟩ : ∃ guess : Int, guess = num.log2 - den.log2 - 52 := ⟨_, rfl⟩
  have hratio := scaleFraction_eq num den (-guess)
  have hpos : (0 : ℚ) < (scaleFraction num den (-guess)).2 := by
    exact_mod_cast scaleFraction_pos num hden (-guess)
  have hpow : (0 : ℚ) < 2 ^ guess := by positivity
  -- The guess is one too great exactly if the quotient has less than 53 bits there.
  have hsmall : (scaleFraction num den (-guess)).1 < (scaleFraction num den (-guess)).2 * Nat.pow 2 52 ↔
      (num / den : ℚ) < 2 ^ (guess + 52) := by
    have hcast : (scaleFraction num den (-guess)).1 < (scaleFraction num den (-guess)).2 * Nat.pow 2 52 ↔
        ((scaleFraction num den (-guess)).1 : ℚ) < (scaleFraction num den (-guess)).2 * 2 ^ 52 := by
      rw [Nat.pow_eq]
      exact_mod_cast Iff.rfl
    rw [hcast, ← div_lt_iff₀' hpos, hratio, zpow_neg, mul_inv_lt_iff₀ hpow, mul_comm, ← zpow_natCast,
      ← zpow_add₀ two_ne_zero]
    rfl
  have hexponent : exponentFor num den
      = max minExponent (if (num / den : ℚ) < 2 ^ (guess + 52) then guess - 1 else guess) := by
    simp only [exponentFor, ← hguess, hsmall]
  have hbounds : ∃ e : Int, exponentFor num den = max minExponent e ∧ (num / den : ℚ) < 2 ^ (e + 53) ∧
      (2 : ℚ) ^ (e + 52) ≤ num / den := by
    rw [hexponent]
    split
    · rename_i hlt
      refine ⟨guess - 1, rfl, ?_, ?_⟩
      · rwa [show guess - 1 + 53 = guess + 52 by omega]
      · rw [show guess - 1 + 52 = (num.log2 : Int) - den.log2 - 1 by omega]
        exact hlow.le
    · rename_i hge
      refine ⟨guess, rfl, ?_, not_lt.1 hge⟩
      rwa [show guess + 53 = (num.log2 : Int) - den.log2 + 1 by omega]
  obtain ⟨e, he, hlt, hle⟩ := hbounds
  rw [he]
  refine ⟨le_max_left _ _, hlt.trans_le ?_, ?_⟩
  · exact zpow_le_zpow_right₀ one_le_two (by omega)
  · rcases le_total e minExponent with hmin | hmin
    · exact .inl (max_eq_left hmin)
    · rw [max_eq_right hmin]
      exact .inr hle

/-! ## The nearest number -/

/-- A fraction is rounded to a multiple of a power of two. -/
structure Rounds (q : ℚ) (s : Nat) (e : Int) : Prop where
  le_exponent : minExponent ≤ e
  lt : q < 2 ^ (e + 53)
  le : e = minExponent ∨ (2 : ℚ) ^ (e + 52) ≤ q
  near : |s * 2 ^ e - q| ≤ 2 ^ e / 2

/-- The number of a significand that may have become a power of two by rounding; `none` if it is out of range. -/
def finish? (s : Nat) (e : Int) : Option Binary64 :=
  let x : Binary64 := if s = Nat.pow 2 53 then ⟨false, Nat.pow 2 52, e + 1⟩ else ⟨false, s, e⟩
  if x.exponent > maxExponent then none else some x

theorem finish?_pow (e : Int) : finish? (Nat.pow 2 53) e
    = if e + 1 > maxExponent then none else some ⟨false, Nat.pow 2 52, e + 1⟩ := by
  rw [finish?, if_pos rfl]

theorem finish?_of_ne {s : Nat} (hs : s ≠ Nat.pow 2 53) (e : Int) : finish? s e
    = if e > maxExponent then none else some ⟨false, s, e⟩ := by
  rw [finish?, if_neg hs]

theorem ofFraction?_zero (den : Nat) : ofFraction? 0 den = finish? 0 minExponent := by
  have hne : (0 : Nat) ≠ Nat.pow 2 53 := by decide
  have hle : ¬ minExponent > maxExponent := by decide
  rw [ofFraction?, if_pos rfl, finish?_of_ne hne, if_neg hle]
  rfl

theorem ofFraction?_of_ne (hnum : num ≠ 0) (he : e = exponentFor num den) : ofFraction? num den
    = finish? (divRound (scaleFraction num den (-e)).1 (scaleFraction num den (-e)).2) e := by
  rw [ofFraction?, if_neg hnum, ← he]
  rfl

theorem abs_mul_pow_sub_le {s : Nat} (h : |(s : ℚ) - q * 2 ^ (-e)| ≤ 1 / 2) : |s * 2 ^ e - q| ≤ 2 ^ e / 2 := by
  have hpow : (0 : ℚ) < 2 ^ e := by positivity
  have hscaled : s * 2 ^ e - q = ((s : ℚ) - q * 2 ^ (-e)) * 2 ^ e := by
    rw [sub_mul, mul_assoc q, ← zpow_add₀ two_ne_zero, neg_add_cancel, zpow_zero, mul_one]
  rw [hscaled, abs_mul, abs_of_pos hpow]
  nlinarith

theorem exists_rounds (hden : 0 < den) :
    ∃ s e, Rounds (num / den) s e ∧ ofFraction? num den = finish? s e := by
  rcases Nat.eq_zero_or_pos num with rfl | hnum
  · refine ⟨0, minExponent, ⟨le_refl _, ?_, .inl rfl, ?_⟩, ?_⟩
    · rw [Nat.cast_zero, zero_div]
      positivity
    · rw [Nat.cast_zero, zero_div, zero_mul, sub_zero, abs_zero]
      positivity
    · exact ofFraction?_zero den
  · obtain ⟨hmin, hlt, hle⟩ := exponentFor_spec hnum hden
    obtain ⟨e, he⟩ : ∃ e, e = exponentFor num den := ⟨_, rfl⟩
    rw [← he] at hmin hlt hle
    refine ⟨divRound (scaleFraction num den (-e)).1 (scaleFraction num den (-e)).2, e, ⟨hmin, hlt, hle, ?_⟩, ?_⟩
    · have hround := abs_divRound_sub_le (scaleFraction num den (-e)).1 (scaleFraction_pos num hden (-e))
      rw [scaleFraction_eq] at hround
      exact abs_mul_pow_sub_le hround
    · exact ofFraction?_of_ne hnum.ne' he

namespace Rounds

variable {s : Nat}

theorem le_pow (h : Rounds q s e) : s ≤ 2 ^ 53 := by
  by_contra hgt
  have hgt' : (2 ^ 53 + 1 : ℚ) ≤ s := by exact_mod_cast Nat.lt_of_not_le hgt
  have hpow : (0 : ℚ) < 2 ^ e := by positivity
  have hlt := h.lt
  have hnear := (abs_le.1 h.near).2
  rw [zpow_add₀ two_ne_zero, zpow_ofNat] at hlt
  nlinarith

/-- What a fraction is rounded to is in range, and it is the multiple of the power of two. -/
theorem finish?_eq_some (h : Rounds q s e) (hx : finish? s e = some x) :
    x.Fits ∧ x.magnitude = s * 2 ^ e := by
  have hmin := h.le_exponent
  have hle := h.le_pow
  by_cases hs : s = Nat.pow 2 53
  · rw [hs, finish?_pow] at hx
    split at hx
    · cases hx
    · rename_i hmax
      cases hx
      refine ⟨⟨?_, ?_, not_lt.1 hmax⟩, ?_⟩
      · show Nat.pow 2 52 < 2 ^ 53
        decide
      · show minExponent ≤ e + 1
        omega
      · rw [hs, magnitude, zpow_add_one₀ two_ne_zero, Nat.pow_eq, Nat.pow_eq]
        push_cast
        ring
  · rw [finish?_of_ne hs] at hx
    split at hx
    · cases hx
    · rename_i hmax
      cases hx
      rw [Nat.pow_eq] at hs
      exact ⟨⟨lt_of_le_of_ne hle hs, hmin, not_lt.1 hmax⟩, rfl⟩

/-- A fraction that is not half a unit greater than the greatest number is in range. -/
theorem isSome_finish? (h : Rounds q s e) (hq : q < (2 ^ 53 - 1 / 2) * 2 ^ maxExponent) : (finish? s e).isSome := by
  have hpow : (0 : ℚ) < 2 ^ maxExponent := by positivity
  have hle : e ≤ maxExponent := by
    by_contra hgt
    have hmin : e ≠ minExponent := by
      rintro rfl
      exact hgt (by decide)
    have hfull := h.le.resolve_left hmin
    have hgreat : (2 : ℚ) ^ (maxExponent + 53) ≤ 2 ^ (e + 52) := zpow_le_zpow_right₀ one_le_two (by omega)
    rw [zpow_add₀ two_ne_zero, zpow_ofNat] at hgreat
    linarith
  by_cases hs : s = Nat.pow 2 53
  · have hne : e ≠ maxExponent := by
      rintro rfl
      have hnear := (abs_le.1 h.near).2
      rw [hs, Nat.pow_eq] at hnear
      push_cast at hnear
      linarith
    rw [hs, finish?_pow, if_neg (by omega)]
    rfl
  · rw [finish?_of_ne hs, if_neg (by omega)]
    rfl

end Rounds

/-- The least fraction that is out of range, half a unit greater than the greatest number. -/
def threshold : ℚ :=
  (2 ^ 53 - 1 / 2) * 2 ^ maxExponent

/-- The number is what a fraction is rounded to; `none` if that is out of range. -/
def Nearest (q : ℚ) (rounded : Option Binary64) : Prop :=
  ∃ num den : Nat, 0 < den ∧ (num / den : ℚ) = q ∧ ofFraction? num den = rounded

namespace Nearest

variable {rounded : Option Binary64}

theorem isSome (h : Nearest q rounded) (hq : q < threshold) : rounded.isSome := by
  obtain ⟨num, den, hden, rfl, rfl⟩ := h
  obtain ⟨s, e, hround, heq⟩ := exists_rounds hden
  rw [heq]
  exact hround.isSome_finish? hq

theorem fits (h : Nearest q (some x)) : x.Fits := by
  obtain ⟨num, den, hden, rfl, hx⟩ := h
  obtain ⟨s, e, hround, heq⟩ := exists_rounds hden
  exact (hround.finish?_eq_some (heq.symm.trans hx)).1

/-- The error is at most half a unit, which is small beside the fraction unless it is the least one. -/
theorem exists_abs_sub_le (h : Nearest q (some x)) :
    ∃ e, (e = minExponent ∨ (2 : ℚ) ^ e * 2 ^ 52 ≤ q) ∧ |x.magnitude - q| ≤ 2 ^ e / 2 := by
  obtain ⟨num, den, hden, rfl, hx⟩ := h
  obtain ⟨s, e, hround, heq⟩ := exists_rounds hden
  refine ⟨e, ?_, ?_⟩
  · have hle := hround.le
    rwa [zpow_add₀ two_ne_zero, zpow_ofNat] at hle
  · rw [(hround.finish?_eq_some (heq.symm.trans hx)).2]
    exact hround.near

theorem abs_sub_le (h : Nearest q (some x)) (hq : 1 ≤ q) : |x.magnitude - q| ≤ q / 2 ^ 53 := by
  obtain ⟨e, rfl | hle, hnear⟩ := h.exists_abs_sub_le
  · have hsmall : (2 : ℚ) ^ minExponent ≤ 2 ^ (-52 : Int) := zpow_le_zpow_right₀ one_le_two (by decide)
    norm_num at hsmall
    linarith
  · linarith

theorem le (h : Nearest q (some x)) (hq : 0 ≤ q) : x.magnitude ≤ 2 * q + 1 := by
  obtain ⟨e, rfl | hle, hnear⟩ := h.exists_abs_sub_le
  · have hsmall : (2 : ℚ) ^ minExponent ≤ 2 ^ (0 : Int) := zpow_le_zpow_right₀ one_le_two (by decide)
    rw [zpow_zero] at hsmall
    linarith [(abs_le.1 hnear).2]
  · have hpow : (0 : ℚ) < 2 ^ e := by positivity
    linarith [(abs_le.1 hnear).2]

end Nearest

theorem nearest_ofNat? (n : Nat) : Nearest n (ofNat? n) :=
  ⟨n, 1, Nat.one_pos, by simp, rfl⟩

theorem nearest_mulAbs? (x y : Binary64) : Nearest (x.magnitude * y.magnitude) (mulAbs? x y) := by
  have hratio := scaleFraction_eq (x.significand * y.significand) 1 (x.exponent + y.exponent)
  refine ⟨(scaleFraction (x.significand * y.significand) 1 (x.exponent + y.exponent)).1, _,
    scaleFraction_pos (x.significand * y.significand) Nat.one_pos (x.exponent + y.exponent), ?_, rfl⟩
  rw [hratio, zpow_add₀ two_ne_zero, magnitude, magnitude]
  push_cast
  ring

theorem nearest_divAbs? (x : Binary64) {y : Binary64} (hy : 0 < y.magnitude) :
    Nearest (x.magnitude / y.magnitude) (divAbs? x y) := by
  have hsignificand : 0 < y.significand := by
    refine Nat.pos_of_ne_zero fun hzero => ?_
    rw [magnitude, hzero, Nat.cast_zero, zero_mul] at hy
    exact lt_irrefl _ hy
  have hratio := scaleFraction_eq x.significand y.significand (x.exponent - y.exponent)
  refine ⟨(scaleFraction x.significand y.significand (x.exponent - y.exponent)).1, _,
    scaleFraction_pos x.significand hsignificand (x.exponent - y.exponent), ?_, rfl⟩
  rw [hratio, zpow_sub₀ two_ne_zero, magnitude, magnitude]
  field_simp

end Binary64

end ConfigUpdate
