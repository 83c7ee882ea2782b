import SegmentQuery.Proofs.Number.Patterns
import SegmentQuery.Proofs.Number.Rounding
/-!
# A precision does not see trailing zeros

Decimals of one value differ in the zeros at the end of their fractions,
and a zero in its sign. Rounding to significant digits drops such zeros or
appends those that are missing, so what it makes, digits and scale and
sign, depends on the value alone.
-/


namespace SegmentQuery

open Number

namespace Decimal

theorem natAbs_roundDiv (n : ℤ) (d : ℕ) : (roundDiv n d).natAbs = Layout.roundDiv n.natAbs d := by
  rw [roundDiv]
  split <;> omega

/-- A rounded quotient does not depend on a common factor. -/
theorem roundDiv_mul_mul (n : ℤ) (d : ℕ) {c : ℕ} (hc : 0 < c) :
    roundDiv (n * c) (d * c) = roundDiv n d := by
  have hsign : n * c < 0 ↔ n < 0 := by
    rw [Int.mul_neg_iff]
    omega
  rw [roundDiv, roundDiv, Int.natAbs_mul, Int.natAbs_natCast, Layout.roundDiv_mul_mul _ _ hc]
  simp only [hsign]

end Decimal

namespace Scaled

open Decimal (coeffLimit maxScale)

variable {x y : Scaled} {precision : ℕ}

/-- The same number with one more zero at the end of its fraction. -/
def withZero (x : Scaled) : Scaled := ⟨x.negative, x.magnitude * 10, x.scale + 1⟩

@[simp]
theorem magnitude_withZero (x : Scaled) : x.withZero.magnitude = x.magnitude * 10 := rfl

@[simp]
theorem scale_withZero (x : Scaled) : x.withZero.scale = x.scale + 1 := rfl

@[simp]
theorem negative_withZero (x : Scaled) : x.withZero.negative = x.negative := rfl

theorem magnitude_withZero_ne (h : x.magnitude ≠ 0) : x.withZero.magnitude ≠ 0 := by
  rw [magnitude_withZero]
  omega

/-- A zero is one more digit. -/
theorem digits_withZero (h : x.magnitude ≠ 0) : x.withZero.digits = x.digits + 1 := by
  have hpow := tenPow_succ x.digits
  have hlt := x.lt_tenPow_digits
  have hge := tenPow_le_magnitude h
  have hpos : 0 < x.digits := Nat.length_toDigits_pos
  apply le_antisymm
  · refine (Nat.length_toDigits_le_iff (by decide) (Nat.succ_pos _)).2 ?_
    show x.magnitude * 10 < tenPow (x.digits + 1)
    omega
  · refine Nat.lt_of_not_le fun hle => ?_
    have hsmall : x.magnitude * 10 < tenPow x.digits :=
      (Nat.length_toDigits_le_iff (by decide) hpos).1 hle
    have hstep := tenPow_succ (x.digits - 1)
    rw [Nat.sub_add_cancel hpos] at hstep
    omega

/-! ## Padding and rounding -/

/-- Padding goes on where a zero was appended before. -/
theorem padTo_withZero {places : ℕ} (h : x.magnitude ≠ 0) (hroom : x.magnitude * 10 < coeffLimit)
    (hplaces : x.scale < places) : x.withZero.padTo places = x.padTo places := by
  obtain ⟨k, hk, hpadded, hfits, hfull⟩ := padTo_eq (x := x) (by omega)
    hplaces.le fun hzero => absurd hzero h
  obtain ⟨k', hk', hpadded', hfits', hfull'⟩ := padTo_eq (x := x.withZero)
    hroom hplaces fun hzero => absurd hzero (magnitude_withZero_ne h)
  simp only [magnitude_withZero, scale_withZero, negative_withZero, mul_ten_mul_tenPow]
    at hk' hpadded' hfits' hfull'
  -- both stop where the next zero has no room
  have hmore {a b : ℕ} (hab : a ≤ b) : x.magnitude * tenPow a ≤ x.magnitude * tenPow b :=
    Nat.mul_le_mul_left _ (Nat.pow_le_pow_right (by decide) hab)
  have hcount : k = k' + 1 := by
    rcases Nat.lt_trichotomy k (k' + 1) with hlt | heq | hgt
    · exact absurd ((hfull (by omega)).trans (hmore (by omega))) (Nat.not_le.2 hfits')
    · exact heq
    · exact absurd ((hfull' (by omega)).trans (hmore (by omega))) (Nat.not_le.2 hfits)
  rw [hpadded, hpadded', hcount, Nat.add_assoc, Nat.add_comm 1 k']

/-- Rounding drops the zero with the digits in front of it. -/
theorem roundPlaces_withZero {places : ℕ} (h : x.magnitude ≠ 0) (hroom : x.magnitude * 10 < coeffLimit)
    (hlt : places < x.scale) (hdropped : x.scale - places ≤ 28) :
    x.withZero.roundPlaces places = x.roundPlaces places := by
  have hsub : x.scale + 1 - places = x.scale - places + 1 := by omega
  have hquot : Layout.roundDiv (x.magnitude * 10) (tenPow (x.scale + 1 - places)) =
      Layout.roundDiv x.magnitude (tenPow (x.scale - places)) := by
    rw [hsub, tenPow_add]
    exact Layout.roundDiv_mul_mul _ _ (by decide)
  rw [roundPlaces_eq (x := x) (by omega) h hlt (.inl (by omega)),
    roundPlaces_eq (x := x.withZero) hroom (magnitude_withZero_ne h) (hlt.trans (Nat.lt_succ_self _))
      (.inl (by rw [scale_withZero]; omega)), magnitude_withZero, scale_withZero, negative_withZero,
    hquot]

/-- Dropping the zero alone changes nothing. -/
theorem roundPlaces_withZero_self (h : x.magnitude ≠ 0) (hroom : x.magnitude * 10 < coeffLimit) :
    x.withZero.roundPlaces x.scale = x := by
  have hquot : Layout.roundDiv (x.magnitude * 10) (tenPow (x.scale + 1 - x.scale)) = x.magnitude := by
    rw [Nat.add_sub_cancel_left]
    exact Layout.roundDiv_mul _ (by decide)
  rw [roundPlaces_eq (x := x.withZero) hroom (magnitude_withZero_ne h) (Nat.lt_succ_self _)
    (.inl (by rw [scale_withZero]; omega)), magnitude_withZero, scale_withZero, negative_withZero,
    hquot, bne_iff_ne.2 h, Bool.and_true]

/-! ## Whole numbers -/

theorem coeff_withZero (x : Scaled) : x.withZero.coeff = x.coeff * (10 : ℕ) := by
  rw [coeff, coeff, negative_withZero, magnitude_withZero]
  split <;> push_cast <;> ring

/-- A rounded whole number fits where there is room for another zero. -/
theorem natAbs_whole_lt {excess : ℕ} (hroom : x.magnitude * 10 < coeffLimit)
    (hexcess : excess ≤ x.digits) (hscale : x.scale ≤ excess) :
    (Decimal.roundDiv x.coeff (tenPow excess) * tenPow (excess - x.scale)).natAbs < coeffLimit := by
  have hdigits : x.digits ≤ 28 := by
    refine (Nat.length_toDigits_le_iff (by decide) (by decide)).2 ?_
    have hlimit : coeffLimit ≤ 10 ^ 28 * 10 := by decide
    omega
  have hquot : Layout.roundDiv x.magnitude (tenPow excess) ≤ tenPow (x.digits - excess) := by
    have hmono := Layout.roundDiv_mono (tenPow excess) x.lt_tenPow_digits.le
    rw [← Nat.sub_add_cancel hexcess, tenPow_add] at hmono
    exact hmono.trans_eq (Layout.roundDiv_mul _ (tenPow_pos excess))
  calc (Decimal.roundDiv x.coeff (tenPow excess) * tenPow (excess - x.scale)).natAbs
      = Layout.roundDiv x.magnitude (tenPow excess) * tenPow (excess - x.scale) := by
        rw [Int.natAbs_mul, Decimal.natAbs_roundDiv, natAbs_coeff, Int.natAbs_natCast]
    _ ≤ tenPow (x.digits - excess) * tenPow (excess - x.scale) := Nat.mul_le_mul_right _ hquot
    _ = tenPow (x.digits - excess + (excess - x.scale)) := (tenPow_add _ _).symm
    _ ≤ tenPow 28 := Nat.pow_le_pow_right (by decide) (by omega)
    _ < coeffLimit := by decide

/-! ## Significant digits -/

/-- **A precision does not see a trailing zero.** -/
theorem roundSignificant_withZero (h : x.magnitude ≠ 0) (hroom : x.magnitude * 10 < coeffLimit) :
    x.withZero.roundSignificant precision = x.roundSignificant precision := by
  have hdigits := digits_le (x := x.withZero) hroom
  rw [digits_withZero h] at hdigits
  have hshown : (Nat.toDigits 10 x.withZero.magnitude).length = x.digits + 1 := digits_withZero h
  rw [roundSignificant, roundSignificant, if_neg (mt isZero_iff.1 h),
    if_neg (mt isZero_iff.1 (magnitude_withZero_ne h))]
  dsimp only
  rw [hshown, show (Nat.toDigits 10 x.magnitude).length = x.digits from rfl, scale_withZero]
  rcases Nat.lt_trichotomy x.digits precision with hless | heq | hmore
  · -- zeros are missing
    have hpad : x.withZero.padTo (x.scale + (precision - x.digits)) =
        x.padTo (x.scale + (precision - x.digits)) := padTo_withZero h hroom (by omega)
    by_cases hlast : x.digits + 1 < precision
    · rw [if_pos hlast, if_pos hless, ← hpad]
      congr 1
      omega
    · have hexact : x.digits + 1 - precision = 0 := by omega
      have hdone : x.withZero.padTo (x.scale + (precision - x.digits)) = x.withZero :=
        if_pos (by rw [scale_withZero]; omega)
      rw [if_neg hlast, if_pos hexact, if_pos hless, ← hpad, hdone]
  · -- the zero goes
    have hlong : ¬ x.digits + 1 < precision := by omega
    have hone : x.digits + 1 - precision = 1 := by omega
    have hexact : x.digits - precision = 0 := by omega
    rw [if_neg hlong, hone, if_neg Nat.one_ne_zero, if_pos (Nat.le_add_left 1 _),
      if_neg (Nat.not_lt.2 heq.ge), if_pos hexact]
    exact roundPlaces_withZero_self h hroom
  · -- the zero goes with other digits
    have hlong : ¬ x.digits + 1 < precision := by omega
    have hone : x.digits + 1 - precision = x.digits - precision + 1 := by omega
    have hsome : x.digits - precision ≠ 0 := by omega
    rw [if_neg hlong, hone, if_neg (Nat.succ_ne_zero _), if_neg (Nat.not_lt.2 hmore.le), if_neg hsome]
    by_cases hfraction : x.digits - precision ≤ x.scale
    · rw [if_pos (Nat.succ_le_succ hfraction), if_pos hfraction, Nat.add_sub_add_right]
      exact roundPlaces_withZero h hroom (by omega) (by omega)
    · have hwhole : Decimal.roundDiv x.withZero.coeff (tenPow (x.digits - precision + 1)) =
          Decimal.roundDiv x.coeff (tenPow (x.digits - precision)) := by
        rw [coeff_withZero, tenPow_add]
        exact Decimal.roundDiv_mul_mul _ _ (by decide)
      have hfits := natAbs_whole_lt hroom (Nat.sub_le _ precision) (Nat.le_of_not_le hfraction)
      rw [if_neg (mt Nat.le_of_succ_le_succ hfraction), if_neg hfraction, hwhole,
        Nat.add_sub_add_right, if_pos hfits, if_pos hfits]

/-- The same number with more zeros at the end of its fraction. -/
def withZeros (x : Scaled) : ℕ → Scaled
  | 0 => x
  | k + 1 => (x.withZeros k).withZero

theorem withZeros_eq (x : Scaled) (k : ℕ) :
    x.withZeros k = ⟨x.negative, x.magnitude * tenPow k, x.scale + k⟩ := by
  induction k with
  | zero =>
    rw [show tenPow 0 = 1 from rfl, Nat.mul_one]
    rfl
  | succ k ih =>
    rw [withZeros, ih, withZero, tenPow_add, Nat.mul_assoc]
    rfl

theorem roundSignificant_withZeros (h : x.magnitude ≠ 0) {k : ℕ}
    (hroom : (x.withZeros k).magnitude < coeffLimit) :
    (x.withZeros k).roundSignificant precision = x.roundSignificant precision := by
  induction k with
  | zero => rfl
  | succ k ih =>
    rw [withZeros, magnitude_withZero] at hroom
    have hne : (x.withZeros k).magnitude ≠ 0 := by
      rw [withZeros_eq]
      exact Nat.mul_ne_zero h (tenPow_pos k).ne'
    rw [withZeros, roundSignificant_withZero hne hroom, ih (by omega)]

/-- Of two numbers of one value the one with the greater scale has more
zeros. -/
theorem eq_withZeros (h : x.toRat = y.toRat) (hne : x.magnitude ≠ 0) (hscale : x.scale ≤ y.scale) :
    y = x.withZeros (y.scale - x.scale) := by
  obtain ⟨k, hk⟩ := Nat.exists_eq_add_of_le hscale
  have hpos : (0 : ℚ) < 10 ^ x.scale := by positivity
  have hcoeff : y.coeff = x.coeff * (tenPow k : ℕ) := by
    rw [toRat, toRat, hk, pow_add, div_eq_div_iff hpos.ne' (by positivity)] at h
    have hcast : (y.coeff : ℚ) = x.coeff * 10 ^ k :=
      mul_right_cancel₀ hpos.ne' (by linarith)
    rw [tenPow_eq]
    exact_mod_cast hcast
  have hmagnitude : y.magnitude = x.magnitude * tenPow k := by
    rw [← natAbs_coeff, hcoeff, Int.natAbs_mul, natAbs_coeff, Int.natAbs_natCast]
  have hnegative : y.negative = x.negative := by
    have hne' : y.magnitude ≠ 0 := hmagnitude ▸ Nat.mul_ne_zero hne (tenPow_pos k).ne'
    have hsign : x.coeff * (tenPow k : ℕ) < 0 ↔ x.coeff < 0 := by
      have := tenPow_pos k
      rw [Int.mul_neg_iff]
      omega
    rw [Bool.eq_iff_iff, ← coeff_neg_iff hne, ← coeff_neg_iff hne', hcoeff, hsign]
  rw [hk, Nat.add_sub_cancel_left, withZeros_eq, ← hnegative, ← hmagnitude, ← hk]

/-- Numbers of one value and one scale are one, but for the sign of a
zero. -/
theorem eq_of_toRat (h : x.toRat = y.toRat) (hscale : x.scale = y.scale)
    (hsign : x.magnitude = 0 → x.negative = y.negative) : x = y := by
  by_cases hzero : x.magnitude = 0
  · have hzero' : y.magnitude = 0 := toRat_eq_zero_iff.1 (h ▸ toRat_eq_zero_iff.2 hzero)
    obtain ⟨negative, magnitude, scale⟩ := x
    obtain ⟨negative', magnitude', scale'⟩ := y
    obtain rfl : negative = negative' := hsign hzero
    obtain rfl : magnitude = magnitude' := hzero.trans hzero'.symm
    obtain rfl : scale = scale' := hscale
    rfl
  · rw [eq_withZeros h hzero hscale.le, hscale, Nat.sub_self]
    rfl

/-- **A precision sees the value alone.** -/
theorem toPrecision_eq_of_toRat (hx : x.magnitude < coeffLimit) (hy : y.magnitude < coeffLimit)
    (h : x.toRat = y.toRat) (hprecision : precision ≠ 0) :
    x.toPrecision precision = y.toPrecision precision := by
  rw [toPrecision, toPrecision, if_neg hprecision, if_neg hprecision]
  have hzeros : x.magnitude = 0 ↔ y.magnitude = 0 := by
    rw [← toRat_eq_zero_iff, ← toRat_eq_zero_iff, h]
  by_cases hzero : x.magnitude = 0
  · have hzero' := hzeros.1 hzero
    rw [roundSignificant, roundSignificant, if_pos (isZero_iff.2 hzero), if_pos (isZero_iff.2 hzero')]
  · have hzero' : y.magnitude ≠ 0 := mt hzeros.2 hzero
    rcases Nat.le_total x.scale y.scale with hle | hle
    · rw [eq_withZeros h hzero hle] at hy ⊢
      exact (roundSignificant_withZeros hzero hy).symm
    · rw [eq_withZeros h.symm hzero' hle] at hx ⊢
      exact roundSignificant_withZeros hzero' hx

end Scaled

end SegmentQuery
