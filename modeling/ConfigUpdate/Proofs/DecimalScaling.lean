import ConfigUpdate.Proofs.Rounding

/-!
# Decimals in double precision

A decimal is read by rounding its digits and scaling them by a rounded power of ten, so it is read as a number if
it stays a few units below the threshold of rounding (`Binary64.isSome_ofDecimal?`). Whatever is read is in range.
-/

namespace ConfigUpdate

namespace Binary64

variable {x y : Binary64} {k : Int} {n : Nat}

/-! ## Bounds -/

/-- Half a unit at the greatest exponent. -/
def halfUnit : ℚ :=
  2 ^ 970

/-- A decimal up to here is read although its digits and the power of ten are rounded. -/
def readBound : ℚ :=
  (2 ^ 54 - 6) * halfUnit

theorem halfUnit_pos : 0 < halfUnit := by
  unfold halfUnit
  positivity

theorem halfUnit_eq : halfUnit = 2 ^ (970 : Int) :=
  (zpow_natCast 2 970).symm

theorem threshold_eq : threshold = (2 ^ 54 - 1) * halfUnit := by
  have hpow : (2 : ℚ) ^ maxExponent = halfUnit * 2 := by
    rw [halfUnit_eq, ← zpow_add_one₀ two_ne_zero]
    rfl
  rw [threshold, hpow]
  ring

theorem two_pow_le_halfUnit : (2 : ℚ) ^ 128 ≤ halfUnit :=
  pow_le_pow_right₀ one_le_two (by omega)

/-- A power of ten that is not scaled to is out of reach. -/
theorem readBound_lt_pow (hk : 308 < k) : readBound < 10 ^ k := by
  have hlt : 2 ^ 54 * 2 ^ 970 < 10 ^ 309 := by decide +kernel
  have hlt' : (2 : ℚ) ^ 54 * halfUnit < 10 ^ 309 := by
    unfold halfUnit
    exact_mod_cast hlt
  calc readBound < 2 ^ 54 * halfUnit := by
        have hpos := halfUnit_pos
        unfold readBound
        linarith
    _ < 10 ^ (309 : Int) := hlt'
    _ ≤ 10 ^ k := zpow_le_zpow_right₀ (by norm_num) (by omega)

theorem pow_lt_threshold {m : Nat} (hm : m ≤ 308) : (10 : ℚ) ^ m < threshold := by
  have hlt : 10 ^ 308 < 18014398509481983 * 2 ^ 970 := by decide +kernel
  have hlt' : (10 : ℚ) ^ 308 < 18014398509481983 * halfUnit := by
    unfold halfUnit
    exact_mod_cast hlt
  calc (10 : ℚ) ^ m ≤ 10 ^ 308 := pow_le_pow_right₀ (by norm_num) hm
    _ < 18014398509481983 * halfUnit := hlt'
    _ = threshold := by
      rw [threshold_eq]
      norm_num

/-! ## Powers of ten -/

theorem nearest_powerOfTen {m : Nat} (hm : m ≤ 308) : Nearest (10 ^ m) (some (powerOfTen m)) := by
  have hnearest : Nearest (10 ^ m) (ofNat? (Nat.pow 10 m)) := by
    have h := nearest_ofNat? (Nat.pow 10 m)
    rw [Nat.pow_eq] at h ⊢
    exact_mod_cast h
  obtain ⟨x, hx⟩ := Option.isSome_iff_exists.1 (hnearest.isSome (pow_lt_threshold hm))
  rw [powerOfTen, hx, Option.getD_some, ← hx]
  exact hnearest

theorem one_le_pow (m : Nat) : (1 : ℚ) ≤ 10 ^ m :=
  one_le_pow₀ (by norm_num)

theorem abs_powerOfTen_sub_le {m : Nat} (hm : m ≤ 308) :
    |(powerOfTen m).magnitude - 10 ^ m| ≤ 10 ^ m / 2 ^ 53 :=
  (nearest_powerOfTen hm).abs_sub_le (one_le_pow m)

theorem five_le_powerOfTen {m : Nat} (hpos : 0 < m) (hm : m ≤ 308) : 5 ≤ (powerOfTen m).magnitude := by
  have hten : (10 : ℚ) ^ 1 ≤ 10 ^ m := pow_le_pow_right₀ (by norm_num) hpos
  have hnear := (abs_le.1 (abs_powerOfTen_sub_le hm)).1
  linarith

theorem powerOfTen_pos {m : Nat} (hpos : 0 < m) (hm : m ≤ 308) : 0 < (powerOfTen m).magnitude := by
  have hpower := five_le_powerOfTen hpos hm
  linarith

/-! ## Scaling -/

theorem scaleTen?_of_nonneg (hk : 0 ≤ k) (hle : k ≤ 308) (x : Binary64) :
    scaleTen? x k = mulAbs? x (powerOfTen k.toNat) := by
  rw [scaleTen?, if_neg (by omega), if_pos hk]

theorem scaleTen?_of_neg (hk : k < 0) (hle : -308 ≤ k) (x : Binary64) :
    scaleTen? x k = divAbs? x (powerOfTen (-k).toNat) := by
  rw [scaleTen?, if_neg (by omega), if_neg (by omega), if_pos hle]

theorem scaleTen?_of_zero (h : x.isZero = true) (hk : k < -308 ∨ 308 < k) : scaleTen? x k = some x := by
  rw [scaleTen?]
  split
  · rfl
  · rw [if_neg (by omega), if_neg (by omega)]

theorem scaleTen?_of_lt (h : x.isZero = false) (hk : k < -308) :
    scaleTen? x k = (divAbs? x (powerOfTen 308)).bind fun y => scaleTen? y (k + 308) := by
  rw [scaleTen?, if_neg (by omega), if_neg (by omega), if_neg (by omega), if_neg (by simp [h])]
  rfl

/-- A number that is not too great is scaled down by every power of ten. -/
theorem isSome_scaleTen?_of_neg (hk : k < 0) (hx : x.magnitude ≤ 2 ^ 66) : (scaleTen? x k).isSome := by
  -- The induction is on the number of divisions. Each leaves the number below the bound.
  obtain ⟨m, hm⟩ : ∃ m : Nat, m = (-k).toNat := ⟨_, rfl⟩
  induction m using Nat.strongRecOn generalizing k x with
  | ind m ih =>
    have hunit := two_pow_le_halfUnit
    have hnonneg := magnitude_nonneg x
    by_cases hle : -308 ≤ k
    · have hpower := five_le_powerOfTen (show 0 < (-k).toNat by omega) (by omega)
      have hpos := powerOfTen_pos (show 0 < (-k).toNat by omega) (by omega)
      rw [scaleTen?_of_neg hk hle]
      refine (nearest_divAbs? x hpos).isSome ?_
      rw [div_lt_iff₀ hpos, threshold_eq]
      nlinarith
    · cases hzero : x.isZero with
      | true =>
        rw [scaleTen?_of_zero hzero (.inl (by omega))]
        rfl
      | false =>
        have hpower := five_le_powerOfTen (show 0 < 308 by omega) (le_refl 308)
        have hpos := powerOfTen_pos (show 0 < 308 by omega) (le_refl 308)
        have hnearest := nearest_divAbs? x hpos
        have hquotient : x.magnitude / (powerOfTen 308).magnitude ≤ 2 ^ 64 := by
          rw [div_le_iff₀ hpos]
          linarith
        have hsome : (divAbs? x (powerOfTen 308)).isSome := by
          refine hnearest.isSome ?_
          rw [threshold_eq]
          linarith
        obtain ⟨y, hy⟩ := Option.isSome_iff_exists.1 hsome
        rw [hy] at hnearest
        have hy66 := hnearest.le (div_nonneg hnonneg hpos.le)
        rw [scaleTen?_of_lt hzero (by omega), hy]
        exact ih (-(k + 308)).toNat (by omega) (by omega) (by linarith) rfl

/-! ## Decimals -/

theorem ofDecimal?_eq (negative : Bool) (n : Nat) (k : Int) : ofDecimal? negative n k
    = (ofNat? n).bind fun x => (scaleTen? x k).map fun y => { y with negative } := by
  unfold ofDecimal?
  cases ofNat? n with
  | none => rfl
  | some x =>
    show (scaleTen? x k).bind _ = (scaleTen? x k).map _
    cases scaleTen? x k <;> rfl

theorem ofNat?_zero : ofNat? 0 = some (zero false) := by
  rw [ofNat?, ofFraction?, if_pos rfl]

theorem isSome_scaleTen?_zero (k : Int) : (scaleTen? (zero false) k).isSome := by
  have hzero : (zero false).isZero = true := rfl
  have hmagnitude : (zero false).magnitude = 0 := by
    rw [magnitude, zero, Nat.cast_zero, zero_mul]
  by_cases hk : k < 0
  · refine isSome_scaleTen?_of_neg hk ?_
    rw [hmagnitude]
    positivity
  by_cases hgreat : 308 < k
  · rw [scaleTen?_of_zero hzero (.inr hgreat)]
    rfl
  · rw [scaleTen?_of_nonneg (by omega) (by omega)]
    refine (nearest_mulAbs? _ _).isSome ?_
    rw [hmagnitude, zero_mul, threshold_eq]
    have hpos := halfUnit_pos
    linarith

/-- Two factors, each rounded, whose product stays a few units below the threshold. -/
theorem mul_lt_threshold {a b r t : ℚ} (hb : 0 ≤ b) (hr : |r - a| ≤ a / 2 ^ 53)
    (ht : |t - b| ≤ b / 2 ^ 53) (hr0 : 0 ≤ r) (hab : a * b ≤ readBound) : r * t < threshold := by
  have hr' : r ≤ a * (1 + 1 / 2 ^ 53) := by linarith [(abs_le.1 hr).2]
  have ht' : t ≤ b * (1 + 1 / 2 ^ 53) := by linarith [(abs_le.1 ht).2]
  have hpos := halfUnit_pos
  calc r * t ≤ r * (b * (1 + 1 / 2 ^ 53)) := by gcongr
    _ ≤ a * (1 + 1 / 2 ^ 53) * (b * (1 + 1 / 2 ^ 53)) := by gcongr
    _ = a * b * (1 + 1 / 2 ^ 53) ^ 2 := by ring
    _ ≤ readBound * (1 + 1 / 2 ^ 53) ^ 2 := by gcongr
    _ < threshold := by
      rw [threshold_eq, readBound, mul_right_comm]
      gcongr
      norm_num

/-- A decimal is read as a number if its digits fit into 64 bits and it does not exceed the bound. -/
theorem isSome_ofDecimal? (negative : Bool) (hn : n < 2 ^ 64) (h : (n : ℚ) * 10 ^ k ≤ readBound) :
    (ofDecimal? negative n k).isSome := by
  rw [ofDecimal?_eq]
  rcases Nat.eq_zero_or_pos n with rfl | hpos
  · rw [ofNat?_zero, Option.bind_some, Option.isSome_map]
    exact isSome_scaleTen?_zero k
  have hn' : (n : ℚ) < 2 ^ 64 := by exact_mod_cast hn
  have hone : (1 : ℚ) ≤ n := by exact_mod_cast hpos
  have hunit := two_pow_le_halfUnit
  have hnearest := nearest_ofNat? n
  have hsome : (ofNat? n).isSome := by
    refine hnearest.isSome ?_
    rw [threshold_eq]
    linarith
  obtain ⟨x, hx⟩ := Option.isSome_iff_exists.1 hsome
  rw [hx] at hnearest
  rw [hx, Option.bind_some, Option.isSome_map]
  have hnear := hnearest.abs_sub_le hone
  by_cases hk : k < 0
  · refine isSome_scaleTen?_of_neg hk ?_
    linarith [(abs_le.1 hnear).2]
  have hle : k ≤ 308 := by
    by_contra hgt
    have hgreat := readBound_lt_pow (show 308 < k by omega)
    have hten : (0 : ℚ) < 10 ^ k := by positivity
    nlinarith
  rw [scaleTen?_of_nonneg (by omega) hle]
  have hpower : (10 : ℚ) ^ k = 10 ^ k.toNat := by
    rw [← zpow_natCast, Int.toNat_of_nonneg (by omega)]
  rw [hpower] at h
  refine (nearest_mulAbs? _ _).isSome (mul_lt_threshold ?_ hnear ?_ (magnitude_nonneg x) h)
  · positivity
  · exact abs_powerOfTen_sub_le (by omega)

/-! ## Range -/

theorem fits_scaleTen? (hx : x.Fits) (h : scaleTen? x k = some y) : y.Fits := by
  obtain ⟨m, hm⟩ : ∃ m : Nat, m = (-k).toNat := ⟨_, rfl⟩
  induction m using Nat.strongRecOn generalizing k x with
  | ind m ih =>
    by_cases hgreat : 308 < k
    · cases hzero : x.isZero with
      | true =>
        rw [scaleTen?_of_zero hzero (.inr hgreat)] at h
        exact Option.some.inj h ▸ hx
      | false =>
        rw [scaleTen?, if_pos hgreat, if_neg (by simp [hzero])] at h
        cases h
    by_cases hk : 0 ≤ k
    · rw [scaleTen?_of_nonneg hk (by omega)] at h
      exact (h ▸ nearest_mulAbs? x (powerOfTen k.toNat)).fits
    by_cases hle : -308 ≤ k
    · rw [scaleTen?_of_neg (by omega) hle] at h
      exact (h ▸ nearest_divAbs? x (powerOfTen_pos (show 0 < (-k).toNat by omega) (by omega))).fits
    · cases hzero : x.isZero with
      | true =>
        rw [scaleTen?_of_zero hzero (.inl (by omega))] at h
        exact Option.some.inj h ▸ hx
      | false =>
        rw [scaleTen?_of_lt hzero (by omega)] at h
        obtain ⟨z, hz, h⟩ := Option.bind_eq_some_iff.1 h
        have hfits := (hz ▸ nearest_divAbs? x (powerOfTen_pos (by omega) (le_refl 308))).fits
        exact ih (-(k + 308)).toNat (by omega) hfits h rfl

/-- Whatever is read is in range. -/
theorem fits_ofDecimal? {negative : Bool} (h : ofDecimal? negative n k = some y) : y.Fits := by
  rw [ofDecimal?_eq] at h
  obtain ⟨x, hx, h⟩ := Option.bind_eq_some_iff.1 h
  obtain ⟨z, hz, rfl⟩ := Option.map_eq_some_iff.1 h
  have hfits := fits_scaleTen? (hx ▸ nearest_ofNat? n).fits hz
  exact ⟨hfits.significand_lt, hfits.le_exponent, hfits.exponent_le⟩

end Binary64

end ConfigUpdate
