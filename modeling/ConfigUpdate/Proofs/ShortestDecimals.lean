import ConfigUpdate.Number.Shortest
import ConfigUpdate.Proofs.Rounding
import Mathlib.Tactic.Push

/-!
# Shortest decimals

Some decimal of seventeen digits lies among the reals that round to a number, so the search for the shortest one
finds one (`Decimal.isSome_onGrid?`). What it finds is no greater than these reals (`Decimal.shortest_spec`).
-/

namespace ConfigUpdate

namespace Decimal

open Binary64 (scaleFraction)

variable {x : Binary64} {k : Int} {d : Decimal}

/-- The value of a decimal. -/
def value (d : Decimal) : ℚ :=
  d.digits * 10 ^ d.exponent

/-! ## The leading exponent -/

theorem lt_pow_digitCount (n : Nat) : n < 10 ^ digitCount n :=
  (Nat.length_toDigits_le_iff (by omega) Nat.length_toDigits_pos).1 (le_refl _)

theorem pow_digitCount_le {n : Nat} (hn : 0 < n) : 10 ^ (digitCount n - 1) ≤ n := by
  rcases Nat.eq_zero_or_pos (digitCount n - 1) with hone | hmore
  · rw [hone, Nat.pow_zero]
    exact hn
  · by_contra hlt
    have hlength : digitCount n ≤ digitCount n - 1 :=
      (Nat.length_toDigits_le_iff (by omega) hmore).2 (Nat.lt_of_not_le hlt)
    omega

theorem pow_leadingExponent_le {num den : Nat} (hnum : 0 < num) (hden : 0 < den) :
    (10 : ℚ) ^ leadingExponent num den ≤ num / den := by
  have hden' : (0 : ℚ) < den := by exact_mod_cast hden
  have hquotient {a b : Nat} (ha : 0 < a) (hle : a ≤ b) : 0 < digitCount (b / a) ∧ 0 < b / a :=
    ⟨Nat.length_toDigits_pos, Nat.div_pos hle ha⟩
  unfold leadingExponent
  split
  · rename_i hle
    obtain ⟨hcount, hpos⟩ := hquotient hden hle
    have hpow : 10 ^ (digitCount (num / den) - 1) * den ≤ num :=
      le_trans (Nat.mul_le_mul_right den (pow_digitCount_le hpos)) (Nat.div_mul_le_self num den)
    have hexponent : (digitCount (num / den) : Int) - 1 = ((digitCount (num / den) - 1 : Nat) : Int) := by omega
    rw [le_div_iff₀ hden', hexponent, zpow_natCast]
    exact_mod_cast hpow
  · rename_i hlt
    obtain ⟨hcount, -⟩ := hquotient hnum (Nat.le_of_not_le hlt)
    simp only [Nat.pow_eq]
    split
    · rename_i hle
      have hexponent : 1 - (digitCount (den / num) : Int) = -((digitCount (den / num) - 1 : Nat) : Int) := by omega
      rw [le_div_iff₀ hden', hexponent, zpow_neg, zpow_natCast, inv_mul_le_iff₀ (by positivity), mul_comm]
      exact_mod_cast hle
    · have hpow : den ≤ num * 10 ^ digitCount (den / num) := by
        rw [Nat.mul_comm]
        exact (Nat.lt_mul_of_div_lt (lt_pow_digitCount (den / num)) hnum).le
      rw [le_div_iff₀ hden', zpow_neg, zpow_natCast, inv_mul_le_iff₀ (by positivity), mul_comm]
      exact_mod_cast hpow

/-! ## Points of a grid -/

/-- Whether a point of a grid lies in an interval, of which the ends may count. -/
def inInterval (low high qn qd : Nat) (closed : Bool) (c : Nat) : Bool :=
  if closed then low * qn ≤ c * qd && c * qd ≤ high * qn
  else low * qn < c * qd && c * qd < high * qn

/-- The point of a grid of which `qd` steps are `qn` quarters of a unit. -/
def gridPoint? (low v high qn qd : Nat) (closed : Bool) (k : Int) : Option Decimal :=
  let below := v * qn / qd
  let down := v * qn - below * qd
  let up := (below + 1) * qd - v * qn
  match inInterval low high qn qd closed below && below != 0, inInterval low high qn qd closed (below + 1) with
  | true, true =>
    some ⟨if down < up || (down == up && below % 2 == 0) then below else below + 1, k⟩
  | true, false => some ⟨below, k⟩
  | false, true => some ⟨below + 1, k⟩
  | false, false => none

/-- How many steps of a grid are how many quarters of a unit. -/
def steps (e k : Int) : Nat × Nat :=
  if 0 ≤ k then ((scaleFraction 1 1 (e - 2)).1, (scaleFraction 1 1 (e - 2)).2 * Nat.pow 10 k.toNat)
  else ((scaleFraction 1 1 (e - 2)).1 * Nat.pow 10 (-k).toNat, (scaleFraction 1 1 (e - 2)).2)

theorem onGrid?_eq (x : Binary64) (k : Int) : onGrid? x k
    = gridPoint? (roundingQuarters x).1 (roundingQuarters x).2.1 (roundingQuarters x).2.2 (steps x.exponent k).1
      (steps x.exponent k).2 (x.significand % 2 == 0) k := by
  rw [onGrid?]
  rfl

theorem steps_pos (e k : Int) : 0 < (steps e k).2 := by
  have hpos := Binary64.scaleFraction_pos 1 Nat.one_pos (e - 2)
  unfold steps
  split
  · exact Nat.mul_pos hpos (Nat.pow_pos (by omega))
  · exact hpos

theorem steps_eq (e k : Int) : ((steps e k).1 : ℚ) / (steps e k).2 = 2 ^ (e - 2) / 10 ^ k := by
  have hratio := Binary64.scaleFraction_eq 1 1 (e - 2)
  rw [Nat.cast_one, div_one, one_mul] at hratio
  unfold steps
  split
  · rename_i hk
    have hpow : (10 : ℚ) ^ k = 10 ^ k.toNat := by rw [← zpow_natCast, Int.toNat_of_nonneg hk]
    rw [← hratio, hpow, Nat.cast_mul, Nat.pow_eq, Nat.cast_pow, Nat.cast_ofNat, div_mul_eq_div_div]
  · rename_i hk
    have hpow : (10 : ℚ) ^ k = (10 ^ (-k).toNat)⁻¹ := by
      rw [← zpow_natCast, Int.toNat_of_nonneg (by omega), ← zpow_neg, neg_neg]
    rw [← hratio, hpow, Nat.cast_mul, Nat.pow_eq, Nat.cast_pow, Nat.cast_ofNat, div_inv_eq_mul, mul_div_right_comm]

section

variable {low v high qn qd : Nat} {closed : Bool}

theorem le_of_inInterval {c : Nat} (h : inInterval low high qn qd closed c = true) : c * qd ≤ high * qn := by
  unfold inInterval at h
  split at h
  · simp only [Bool.and_eq_true, decide_eq_true_eq] at h
    exact h.2
  · simp only [Bool.and_eq_true, decide_eq_true_eq] at h
    exact h.2.le

theorem inInterval_of_lt {c : Nat} (hlow : low * qn < c * qd) (hhigh : c * qd < high * qn) :
    inInterval low high qn qd closed c = true := by
  unfold inInterval
  split
  · simp [hlow.le, hhigh.le]
  · simp [hlow, hhigh]

theorem gridPoint?_spec (h : gridPoint? low v high qn qd closed k = some d) :
    d.exponent = k ∧ d.digits ≠ 0 ∧ d.digits * qd ≤ high * qn := by
  unfold gridPoint? at h
  dsimp only at h
  split at h
  · rename_i hbelow habove
    cases h
    rw [Bool.and_eq_true, bne_iff_ne] at hbelow
    refine ⟨rfl, ?_, ?_⟩
    · dsimp only
      split
      · exact hbelow.2
      · exact Nat.succ_ne_zero _
    · dsimp only
      split
      · exact le_of_inInterval hbelow.1
      · exact le_of_inInterval habove
  · rename_i hbelow habove
    cases h
    rw [Bool.and_eq_true, bne_iff_ne] at hbelow
    exact ⟨rfl, hbelow.2, le_of_inInterval hbelow.1⟩
  · rename_i hbelow habove
    cases h
    exact ⟨rfl, Nat.succ_ne_zero _, le_of_inInterval habove⟩
  · cases h

theorem isSome_gridPoint? (h : (inInterval low high qn qd closed (v * qn / qd) = true ∧ v * qn / qd ≠ 0) ∨
    inInterval low high qn qd closed (v * qn / qd + 1) = true) : (gridPoint? low v high qn qd closed k).isSome := by
  unfold gridPoint?
  dsimp only
  split
  · rfl
  · rfl
  · rfl
  · rename_i hbelow habove
    rcases h with ⟨hin, hne⟩ | hin
    · rw [hin, Bool.true_and, bne_eq_false_iff_eq] at hbelow
      exact absurd hbelow hne
    · rw [hin] at habove
      cases habove

/-- On a grid that is fine enough one of the points beside the number lies in the interval around it. -/
theorem isSome_gridPoint?_of_fine (closed : Bool) (k : Int) (hqd : 0 < qd) (hpos : 4 ≤ v) (hlt : v < 2 ^ 55)
    (hlow : low = v - 2 ∨ low = v - 1 ∧ v = 2 ^ 54) (hfine : 10 ^ 16 * qd ≤ v * qn) :
    (gridPoint? low v (v + 2) qn qd closed k).isSome := by
  apply isSome_gridPoint?
  obtain ⟨below, hbelow⟩ : ∃ below, below = v * qn / qd := ⟨_, rfl⟩
  have hhigh : (v + 2) * qn = v * qn + 2 * qn := Nat.add_mul v 2 qn
  have hnext : (below + 1) * qd = below * qd + qd := Nat.succ_mul below qd
  have hle : below * qd ≤ v * qn := hbelow ▸ Nat.div_mul_le_self (v * qn) qd
  have hgt : v * qn < below * qd + qd := hbelow ▸ Nat.lt_div_mul_add hqd
  have hne : below ≠ 0 := by
    rintro rfl
    omega
  have hbound : v * qn ≤ (2 ^ 55 - 1) * qn := Nat.mul_le_mul_right qn (by omega)
  have hqn : 0 < qn := by
    refine Nat.pos_of_ne_zero fun hzero => ?_
    rw [hzero, Nat.mul_zero] at hfine
    omega
  have hlow' : low * qn + 2 * qn = v * qn ∨ low * qn + qn = v * qn ∧ qd < 2 * qn := by
    rcases hlow with rfl | ⟨rfl, rfl⟩
    · left
      rw [← Nat.add_mul, Nat.sub_add_cancel (by omega)]
    · right
      omega
  rw [← hbelow]
  by_cases habove : below * qd + qd < v * qn + 2 * qn
  · exact .inr (inInterval_of_lt (by omega) (by omega))
  · exact .inl ⟨inInterval_of_lt (by omega) (by omega), hne⟩

end

/-! ## The search -/

/-- What is found on a grid is no greater than the reals that round to the number. -/
theorem onGrid?_spec (h : onGrid? x k = some d) :
    d.digits ≠ 0 ∧ d.value ≤ (4 * x.significand + 2) * 2 ^ (x.exponent - 2) := by
  rw [onGrid?_eq] at h
  obtain ⟨rfl, hne, hle⟩ := gridPoint?_spec h
  have hsteps := steps_eq x.exponent d.exponent
  have hpos : (0 : ℚ) < (steps x.exponent d.exponent).2 := by exact_mod_cast steps_pos x.exponent d.exponent
  have hten : (0 : ℚ) < 10 ^ d.exponent := by positivity
  have hle' : (d.digits * (steps x.exponent d.exponent).2 : ℚ)
      ≤ (4 * x.significand + 2) * (steps x.exponent d.exponent).1 := by
    exact_mod_cast hle
  refine ⟨hne, ?_⟩
  rw [eq_div_iff hten.ne'] at hsteps
  rw [value, ← hsteps]
  rw [← le_div_iff₀ hpos] at hle'
  calc (d.digits : ℚ) * 10 ^ d.exponent
      ≤ (4 * x.significand + 2) * (steps x.exponent d.exponent).1 / (steps x.exponent d.exponent).2
        * 10 ^ d.exponent := by gcongr
    _ = _ := by ring

theorem exists_roundingQuarters_eq (x : Binary64) :
    ∃ low, roundingQuarters x = (low, 4 * x.significand, 4 * x.significand + 2) ∧
      (low = 4 * x.significand - 2 ∨ low = 4 * x.significand - 1 ∧ 4 * x.significand = 2 ^ 54) := by
  refine ⟨_, rfl, ?_⟩
  split
  · rename_i hpower
    refine .inr ⟨rfl, ?_⟩
    rw [hpower.1]
    decide
  · exact .inl rfl

/-- Seventeen digits are enough to find a point. -/
theorem isSome_onGrid? (hpos : 0 < x.significand) (hlt : x.significand < 2 ^ 53)
    (hk : (10 : ℚ) ^ (k + 16) ≤ x.magnitude) : (onGrid? x k).isSome := by
  have hsteps := steps_eq x.exponent k
  have hqd := steps_pos x.exponent k
  have hqd' : (0 : ℚ) < (steps x.exponent k).2 := by exact_mod_cast hqd
  have hten : (0 : ℚ) < 10 ^ k := by positivity
  have hfine : (10 ^ 16 * (steps x.exponent k).2 : ℚ) ≤ 4 * x.significand * (steps x.exponent k).1 := by
    rw [zpow_add₀ (by norm_num), zpow_ofNat, Binary64.magnitude] at hk
    rw [div_eq_div_iff hqd'.ne' hten.ne', zpow_sub₀ two_ne_zero, zpow_ofNat] at hsteps
    have hscaled : (4 * x.significand * ((steps x.exponent k).1 * 10 ^ k) : ℚ)
        = x.significand * 2 ^ x.exponent * (steps x.exponent k).2 := by
      rw [hsteps]
      ring
    refine le_of_mul_le_mul_right ?_ hten
    calc (10 ^ 16 * (steps x.exponent k).2 : ℚ) * 10 ^ k = 10 ^ k * 10 ^ 16 * (steps x.exponent k).2 := by ring
      _ ≤ x.significand * 2 ^ x.exponent * (steps x.exponent k).2 := by gcongr
      _ = 4 * x.significand * (steps x.exponent k).1 * 10 ^ k := by rw [← hscaled, ← mul_assoc]
  obtain ⟨low, hquarters, hlow⟩ := exists_roundingQuarters_eq x
  have hleast : 4 ≤ 4 * x.significand := by omega
  have hgreatest : 4 * x.significand < 2 ^ 55 := by omega
  rw [onGrid?_eq, hquarters]
  exact isSome_gridPoint?_of_fine _ k hqd hleast hgreatest hlow (by exact_mod_cast hfine)

theorem dropZeros_spec (fuel : Nat) (d : Decimal) :
    (dropZeros fuel d).value = d.value ∧ (d.digits ≠ 0 → (dropZeros fuel d).digits ≠ 0) := by
  induction fuel generalizing d with
  | zero => exact ⟨rfl, id⟩
  | succ fuel ih =>
    rw [dropZeros]
    split
    · rename_i hzero
      obtain ⟨hvalue, hne⟩ := ih ⟨d.digits / 10, d.exponent + 1⟩
      have hdigits : 10 * (d.digits / 10) = d.digits := by omega
      refine ⟨hvalue.trans ?_, fun _ => hne (by show d.digits / 10 ≠ 0; omega)⟩
      have hdigits' : (10 : ℚ) * (d.digits / 10 : Nat) = d.digits := by exact_mod_cast hdigits
      rw [value, value, zpow_add_one₀ (by norm_num), ← hdigits']
      ring
    · exact ⟨rfl, id⟩

theorem shortest_eq (x : Binary64) : shortest x
    = dropZeros 20 (((List.range 17).findSome? fun n : Nat =>
        onGrid? x (leadingExponent (scaleFraction x.significand 1 x.exponent).1
          (scaleFraction x.significand 1 x.exponent).2 - n)).getD ⟨x.significand, x.exponent⟩) := by
  rw [shortest]

/-- The shortest decimal has digits, and it is no greater than the reals that round to the number. -/
theorem shortest_spec (hpos : 0 < x.significand) (hlt : x.significand < 2 ^ 53) :
    (shortest x).digits ≠ 0 ∧ (shortest x).value ≤ (4 * x.significand + 2) * 2 ^ (x.exponent - 2) := by
  obtain ⟨e, he⟩ : ∃ e, e = leadingExponent (scaleFraction x.significand 1 x.exponent).1
    (scaleFraction x.significand 1 x.exponent).2 := ⟨_, rfl⟩
  have hmagnitude : (10 : ℚ) ^ e ≤ x.magnitude := by
    have hratio := Binary64.scaleFraction_eq x.significand 1 x.exponent
    rw [Nat.cast_one, div_one] at hratio
    rw [he, Binary64.magnitude, ← hratio]
    exact pow_leadingExponent_le (Binary64.scaleFraction_fst_pos hpos 1 x.exponent)
      (Binary64.scaleFraction_pos x.significand Nat.one_pos x.exponent)
  have hsome : ((List.range 17).findSome? fun n : Nat => onGrid? x (e - n)).isSome := by
    refine List.findSome?_isSome_iff.2 ⟨16, by decide, isSome_onGrid? hpos hlt ?_⟩
    have hexponent : e - (16 : Nat) + 16 = e := by omega
    rwa [hexponent]
  obtain ⟨d, hd⟩ := Option.isSome_iff_exists.1 hsome
  obtain ⟨n, -, hn⟩ := List.exists_of_findSome?_eq_some hd
  obtain ⟨hne, hle⟩ := onGrid?_spec hn
  obtain ⟨hvalue, hdigits⟩ := dropZeros_spec 20 d
  rw [shortest_eq, ← he, hd, Option.getD_some, hvalue]
  exact ⟨hdigits hne, hle⟩

end Decimal

end ConfigUpdate
