import Mathlib.Algebra.Order.Field.Power
import Mathlib.Data.Int.Log
import Mathlib.Data.Rat.Floor
import SegmentQuery.Decimal.Rounding
import SegmentQuery.Proofs.Number.PlainText
import SegmentQuery.Proofs.Number.Sums
/-!
# Rounding to digits

What it means to round a number to a count of fractional digits or of
significant ones, a half going to the even digit, and that the rounding of
decimals does so. The coefficients stay within 96 bits: a whole number whose
rounding does not fit is left as it is, zeros are appended while there is
room, and a half that 96 bits do not hold is not the true one.
-/


namespace SegmentQuery

open Number

variable {q r r' : ℚ} {n k : ℤ} {places : ℤ}

/-! ## Rounded numbers -/

/-- The integer is nearest to the number, and of two the even one. -/
structure NearestEven (q : ℚ) (n : ℤ) : Prop where
  near : |q - n| ≤ 1 / 2
  even : |q - n| = 1 / 2 → Even n

/-- `r` is `q` rounded to `places` fractional digits, or to tens, hundreds
and so on where `places` is negative. -/
def RoundsTo (places : ℤ) (q r : ℚ) : Prop :=
  ∃ n : ℤ, NearestEven (q * 10 ^ places) n ∧ r = n / 10 ^ places

/-- `r` is `q` rounded to `digits` significant digits. -/
def RoundsToDigits (digits : ℕ) (q r : ℚ) : Prop := RoundsTo (digits - 1 - Int.log 10 |q|) q r

/-- What a precision keeps of a number: all of it where no precision is
asked for, and else its significant digits, unless they make a number that
does not fit. -/
def KeptBy (precision : ℕ) (q kept : ℚ) : Prop :=
  if precision = 0 then kept = q
  else ∃ r, RoundsToDigits precision q r ∧ kept = if |r| < Decimal.coeffLimit then r else q

/-- An integer is nearest to itself. -/
theorem nearestEven_intCast (n : ℤ) : NearestEven n n where
  near := by norm_num
  even := by norm_num

theorem NearestEven.neg (h : NearestEven q n) : NearestEven (-q) (-n) := by
  have hdist : |-q - ((-n : ℤ) : ℚ)| = |q - n| := by
    rw [← abs_neg]
    push_cast
    ring_nf
  exact ⟨hdist ▸ h.near, fun htie => (h.even (hdist ▸ htie)).neg⟩

/-- **One integer is the nearest**, or the even one of two. -/
theorem NearestEven.unique (hn : NearestEven q n) (hk : NearestEven q k) : n = k := by
  by_contra hne
  have hdist : |(n : ℚ) - k| ≤ |q - n| + |q - k| := by
    rw [abs_sub_comm q n]
    exact abs_sub_le (n : ℚ) q k
  have hapart : (1 : ℚ) ≤ |(n : ℚ) - k| := by
    exact_mod_cast Int.one_le_abs (sub_ne_zero.2 hne)
  have hnear := hn.near
  have hnear' := hk.near
  -- the number is in the middle, and both of its neighbours are even
  obtain ⟨a, ha⟩ := hn.even (by linarith)
  obtain ⟨b, hb⟩ := hk.even (by linarith)
  have hone : |n - k| ≤ 1 := by
    have hle : |(n : ℚ) - k| ≤ 1 := by linarith
    exact_mod_cast hle
  have hbounds := abs_le.1 hone
  omega

theorem RoundsTo.unique (h : RoundsTo places q r) (h' : RoundsTo places q r') : r = r' := by
  obtain ⟨n, hn, rfl⟩ := h
  obtain ⟨k, hk, rfl⟩ := h'
  rw [hn.unique hk]

/-- A number that needs no more digits is rounded to itself. -/
theorem roundsTo_self (h : q * 10 ^ places = n) : RoundsTo places q q := by
  refine ⟨n, h ▸ nearestEven_intCast n, ?_⟩
  rw [← h, mul_div_cancel_right₀ _ (by positivity)]

/-! ## Rounded quotients -/

namespace Number.Layout

/-- A rounded quotient is at most half a divisor away, and even where it is
that far. -/
theorem roundDiv_near (n d : ℕ) (hd : 0 < d) :
    2 * n ≤ 2 * (roundDiv n d * d) + d ∧ 2 * (roundDiv n d * d) ≤ 2 * n + d ∧
      (2 * n = 2 * (roundDiv n d * d) + d ∨ 2 * (roundDiv n d * d) = 2 * n + d →
        roundDiv n d % 2 = 0) := by
  have hsplit := Nat.div_add_mod n d
  have hmod := Nat.mod_lt n hd
  have hup : (n / d + 1) * d = n / d * d + d := Nat.succ_mul _ _
  rw [Nat.mul_comm] at hsplit
  rw [roundDiv_eq]
  split_ifs <;> omega

theorem nearestEven_roundDiv (n : ℕ) {d : ℕ} (hd : 0 < d) :
    NearestEven (n / d : ℚ) (roundDiv n d) := by
  obtain ⟨hbelow, habove, heven⟩ := roundDiv_near n d hd
  have hpos : (0 : ℚ) < d := by exact_mod_cast hd
  have hdist : (n / d : ℚ) - (roundDiv n d : ℤ) = (n - roundDiv n d * d) / d := by
    field_simp
    push_cast
    ring
  have hbelow' : (2 * n : ℚ) ≤ 2 * (roundDiv n d * d) + d := by exact_mod_cast hbelow
  have habove' : (2 * (roundDiv n d * d) : ℚ) ≤ 2 * n + d := by exact_mod_cast habove
  refine ⟨?_, fun htie => ?_⟩
  · rw [hdist, abs_div, abs_of_pos hpos, div_le_iff₀ hpos, abs_le]
    constructor <;> linarith
  · rw [hdist, abs_div, abs_of_pos hpos, div_eq_iff hpos.ne'] at htie
    refine (Int.even_coe_nat _).2 (Nat.even_iff.2 (heven ?_))
    rcases eq_or_eq_neg_of_abs_eq htie with h | h
    · left
      exact_mod_cast (by linarith : (2 * n : ℚ) = 2 * (roundDiv n d * d) + d)
    · right
      exact_mod_cast (by linarith : (2 * (roundDiv n d * d) : ℚ) = 2 * n + d)

end Number.Layout

/-- **A rounded quotient** is the nearest integer, or the even one of two. -/
theorem Decimal.nearestEven_roundDiv (n : ℤ) {d : ℕ} (hd : 0 < d) :
    NearestEven (n / d : ℚ) (roundDiv n d) := by
  have hnat := Layout.nearestEven_roundDiv n.natAbs hd
  rw [roundDiv]
  rcases Int.lt_or_le n 0 with hneg | hpos
  · have hn : (n : ℚ) = -(n.natAbs : ℕ) := by
      rw [Nat.cast_natAbs, abs_of_neg hneg]
      push_cast
      ring
    rw [if_pos hneg, hn, neg_div]
    exact hnat.neg
  · have hn : (n : ℚ) = (n.natAbs : ℕ) := by
      rw [Nat.cast_natAbs, abs_of_nonneg hpos]
    rw [if_neg (Int.not_lt.2 hpos), hn]
    exact hnat

namespace Scaled

open Decimal (coeffLimit maxScale)

variable {x y : Scaled}

theorem isZero_iff : x.isZero = true ↔ x.magnitude = 0 := beq_iff_eq

theorem coeff_eq_zero (h : x.magnitude = 0) : x.coeff = 0 := by
  rw [coeff, h]
  split <;> rfl

/-- A number that is no zero has the sign of its coefficient. -/
theorem coeff_neg_iff (h : x.magnitude ≠ 0) : x.coeff < 0 ↔ x.negative = true := by
  rw [coeff]
  cases x.negative with
  | false => simp
  | true => exact iff_of_true (by rw [if_pos rfl]; omega) rfl

/-! ## Rounding to fractional digits -/

/-- The half that decides is the true one, or a number short of it is
rounded away either way. -/
def HalfHolds (x : Scaled) (places : ℕ) : Prop :=
  x.scale ≤ places + 29 ∨ x.magnitude ≤ half (x.scale - places)

/-- Up to 29 digits the half is the true one. -/
theorem half_eq {dropped : ℕ} (hpos : 0 < dropped) (h : dropped ≤ 29) :
    2 * half dropped = tenPow dropped := by
  have hle : tenPow (dropped - 1) ≤ tenPow 28 := Nat.pow_le_pow_right (by decide) (by omega)
  have hfits : 5 * tenPow (dropped - 1) < coeffLimit :=
    (Nat.mul_le_mul_left 5 hle).trans_lt (by decide)
  have hstep : tenPow dropped = 10 * tenPow (dropped - 1) := by
    rw [← tenPow_succ, Nat.sub_add_cancel hpos]
  rw [half, Nat.mod_eq_of_lt hfits, hstep]
  omega

/-- The digit that is kept is the one of the rounded quotient. -/
theorem kept_eq_roundDiv {m dropped : ℕ} (hpos : 0 < dropped) (hm : m < coeffLimit)
    (hhalf : dropped ≤ 29 ∨ m ≤ half dropped) :
    (if decide (half dropped < m % tenPow dropped) ||
        (m % tenPow dropped == half dropped && m / tenPow dropped % 2 == 1) then
      m / tenPow dropped + 1 else m / tenPow dropped) = Layout.roundDiv m (tenPow dropped) := by
  simp only [Bool.or_eq_true, Bool.and_eq_true, decide_eq_true_eq, beq_iff_eq]
  rw [Layout.roundDiv_eq]
  by_cases h : dropped ≤ 29
  · have htwice := half_eq hpos h
    split_ifs <;> omega
  · -- so many digits are more than the coefficient has, and all of them go
    have hsmall : tenPow 30 ≤ tenPow dropped := Nat.pow_le_pow_right (by decide) (by omega)
    have hlimit : 2 * coeffLimit < tenPow 30 := by decide
    have hmod : m % tenPow dropped = m := Nat.mod_eq_of_lt (by omega)
    have hdiv : m / tenPow dropped = 0 := Nat.div_eq_of_lt (by omega)
    have hle := hhalf.resolve_left h
    rw [hmod, hdiv, if_neg (by omega), if_pos (by omega)]

theorem scale_roundPlaces (x : Scaled) (places : ℕ) :
    (x.roundPlaces places).scale = min x.scale places := by
  unfold roundPlaces
  split_ifs with hle hzero
  · exact (min_eq_left hle).symm
  · exact (min_eq_right (Nat.le_of_not_le hle)).symm
  · exact (min_eq_right (Nat.le_of_not_le hle)).symm

/-- **The digits that rounding keeps** are those of the rounded quotient. -/
theorem roundPlaces_eq {places : ℕ} (hm : x.magnitude < coeffLimit) (hne : x.magnitude ≠ 0)
    (hlt : places < x.scale) (hhalf : x.HalfHolds places) : x.roundPlaces places =
      ⟨x.negative && Layout.roundDiv x.magnitude (tenPow (x.scale - places)) != 0,
        Layout.roundDiv x.magnitude (tenPow (x.scale - places)), places⟩ := by
  have hzero : ¬ x.isZero = true := mt isZero_iff.1 hne
  have hkept := kept_eq_roundDiv (Nat.sub_pos_of_lt hlt) hm (hhalf.imp_left Nat.sub_le_iff_le_add'.2)
  rw [roundPlaces, if_neg (Nat.not_le.2 hlt), if_neg hzero]
  dsimp only
  rw [hkept]

/-- The coefficient of a rounded number is the rounded quotient. -/
theorem coeff_roundPlaces {places : ℕ} (hm : x.magnitude < coeffLimit) (hhalf : x.HalfHolds places) :
    (x.roundPlaces places).coeff = Decimal.roundDiv x.coeff (tenPow (x.scale - places)) := by
  rcases Nat.lt_or_ge places x.scale with hlt | hle
  · by_cases hzero : x.magnitude = 0
    · have hrounded : x.roundPlaces places = { x with scale := places } := by
        rw [roundPlaces, if_neg (Nat.not_le.2 hlt), if_pos (isZero_iff.2 hzero)]
      have hmul := Decimal.roundDiv_mul 0 (tenPow_pos (x.scale - places))
      rw [Int.zero_mul] at hmul
      rw [hrounded, coeff_eq_zero hzero, coeff_eq_zero (by exact hzero), hmul]
    · have hsign := coeff_neg_iff hzero
      rw [roundPlaces_eq hm hzero hlt hhalf, Decimal.roundDiv, natAbs_coeff, coeff]
      dsimp only
      cases hnegative : x.negative with
      | false => simp [hsign, hnegative]
      | true =>
        rw [if_pos (hsign.2 hnegative)]
        split <;> simp_all
  · rw [Nat.sub_eq_zero_of_le hle, Decimal.roundDiv_one, roundPlaces, if_pos hle]

/-- Rounding makes no coefficient too large. -/
theorem magnitude_roundPlaces_lt (places : ℕ) (hm : x.magnitude < coeffLimit) :
    (x.roundPlaces places).magnitude < coeffLimit := by
  unfold roundPlaces
  split_ifs with hle hzero
  · exact hm
  · exact hm
  · have hten : tenPow 1 ≤ tenPow (x.scale - places) :=
      Nat.pow_le_pow_right (by decide) (by omega)
    have hdiv : x.magnitude / tenPow (x.scale - places) ≤ x.magnitude / 10 :=
      Nat.div_le_div_left hten (by decide)
    have hlimit : 2 < coeffLimit := by decide
    dsimp only
    split <;> omega

/-- **Rounding to fractional digits.** -/
theorem roundsTo_roundPlaces (places : ℕ) (hm : x.magnitude < coeffLimit)
    (hhalf : x.HalfHolds places) : RoundsTo places x.toRat (x.roundPlaces places).toRat := by
  rcases Nat.le_total x.scale places with hle | hle
  · have hsame : x.roundPlaces places = x := if_pos hle
    rw [hsame]
    refine roundsTo_self (n := x.coeff * 10 ^ (places - x.scale)) ?_
    rw [toRat, zpow_natCast, ← Nat.sub_add_cancel hle, pow_add]
    push_cast
    rw [Nat.add_sub_cancel]
    field_simp
  · refine ⟨Decimal.roundDiv x.coeff (tenPow (x.scale - places)), ?_, ?_⟩
    · have hquot : x.toRat * 10 ^ (places : ℤ) = x.coeff / (tenPow (x.scale - places) : ℕ) := by
        rw [toRat, zpow_natCast, tenPow_eq]
        push_cast
        rw [← Nat.sub_add_cancel hle, pow_add, Nat.add_sub_cancel]
        field_simp
      rw [hquot]
      exact Decimal.nearestEven_roundDiv _ (tenPow_pos _)
    · rw [toRat, coeff_roundPlaces hm hhalf, scale_roundPlaces, min_eq_right hle, zpow_natCast]

/-! ## Sizes -/

theorem abs_toRat (x : Scaled) : |x.toRat| = x.magnitude / 10 ^ x.scale := by
  have hcoeff : |(x.coeff : ℚ)| = x.magnitude := by
    rw [← Int.cast_abs, Int.abs_eq_natAbs, natAbs_coeff]
    rfl
  rw [toRat, abs_div, hcoeff, abs_of_pos (by positivity)]

theorem abs_toRat_lt (hm : x.magnitude < coeffLimit) : |x.toRat| < coeffLimit := by
  have hone : (1 : ℚ) ≤ 10 ^ x.scale := one_le_pow₀ (by norm_num)
  rw [abs_toRat, div_lt_iff₀ (by positivity)]
  calc (x.magnitude : ℚ) < coeffLimit := by exact_mod_cast hm
    _ ≤ coeffLimit * 10 ^ x.scale := le_mul_of_one_le_right (by positivity) hone

theorem toRat_eq_zero_iff : x.toRat = 0 ↔ x.magnitude = 0 := by
  rw [← abs_eq_zero, abs_toRat, div_eq_zero_iff, Nat.cast_eq_zero]
  exact or_iff_left (by positivity)

/-- How many digits the magnitude has. -/
def digits (x : Scaled) : ℕ := (Nat.toDigits 10 x.magnitude).length

theorem lt_tenPow_digits (x : Scaled) : x.magnitude < tenPow x.digits :=
  (Nat.length_toDigits_le_iff (by decide) Nat.length_toDigits_pos).1 le_rfl

theorem tenPow_le_magnitude (h : x.magnitude ≠ 0) : tenPow (x.digits - 1) ≤ x.magnitude := by
  have hpos : 0 < x.digits := Nat.length_toDigits_pos
  rcases Nat.eq_zero_or_pos (x.digits - 1) with hone | hmore
  · rw [hone]
    exact Nat.one_le_iff_ne_zero.2 h
  · refine Nat.le_of_not_lt fun hlt => ?_
    have hle : x.digits ≤ x.digits - 1 := (Nat.length_toDigits_le_iff (by decide) hmore).2 hlt
    omega

theorem digits_le (hm : x.magnitude < coeffLimit) : x.digits ≤ 29 :=
  (Nat.length_toDigits_le_iff (by decide) (by decide)).2 (hm.trans (by decide))

/-- The digits tell the size. -/
theorem log_abs_toRat (h : x.magnitude ≠ 0) : Int.log 10 |x.toRat| = x.digits - 1 - x.scale := by
  have hdigits : 0 < x.digits := Nat.length_toDigits_pos
  have hpos : 0 < |x.toRat| := by
    rw [abs_toRat]
    have : 0 < x.magnitude := Nat.pos_of_ne_zero h
    positivity
  have hscale : (10 : ℚ) ^ (x.scale : ℤ) = 10 ^ x.scale := zpow_natCast 10 x.scale
  apply le_antisymm
  · have hlt : |x.toRat| < ((10 : ℕ) : ℚ) ^ ((x.digits : ℤ) - x.scale) := by
      rw [abs_toRat, Nat.cast_ofNat, zpow_sub₀ (by norm_num), hscale, zpow_natCast]
      gcongr
      exact_mod_cast x.lt_tenPow_digits
    have := (Int.lt_zpow_iff_log_lt (by decide) hpos).1 hlt
    omega
  · refine (Int.zpow_le_iff_le_log (by decide) hpos).1 ?_
    have hcast : (x.digits : ℤ) - 1 = (x.digits - 1 : ℕ) := by omega
    rw [abs_toRat, Nat.cast_ofNat, zpow_sub₀ (by norm_num), hscale, hcast, zpow_natCast]
    gcongr
    exact_mod_cast tenPow_le_magnitude h

/-! ## Padding -/

/-- Zeros at the end of the fraction do not change the value. -/
theorem toRat_zeros (x : Scaled) (k : ℕ) :
    toRat ⟨x.negative, x.magnitude * tenPow k, x.scale + k⟩ = x.toRat := by
  have hcoeff : coeff ⟨x.negative, x.magnitude * tenPow k, x.scale + k⟩ = x.coeff * 10 ^ k := by
    rw [coeff, coeff, tenPow_eq]
    split <;> push_cast <;> ring
  rw [toRat, toRat, hcoeff, pow_add]
  push_cast
  field_simp

theorem mul_ten_mul_tenPow (m k : ℕ) : m * 10 * tenPow k = m * tenPow (k + 1) := by
  rw [tenPow_succ, Nat.mul_assoc]

/-- **Zeros are appended while there is room for them.** -/
theorem padZeros_eq (x : Scaled) (n : ℕ) : ∃ k ≤ n,
    x.padZeros n = ⟨x.negative, x.magnitude * tenPow k, x.scale + k⟩ ∧
      (0 < k → x.magnitude * tenPow k < coeffLimit) ∧
      (k < n → coeffLimit ≤ x.magnitude * tenPow (k + 1)) := by
  induction n generalizing x with
  | zero => exact ⟨0, le_rfl, by rw [show tenPow 0 = 1 from rfl, Nat.mul_one]; rfl, nofun, nofun⟩
  | succ n ih =>
    rw [padZeros]
    split
    · rename_i hroom
      obtain ⟨k, hk, hpadded, hfits, hfull⟩ :=
        ih { x with magnitude := x.magnitude * 10, scale := x.scale + 1 }
      simp only [mul_ten_mul_tenPow] at hpadded hfits hfull
      refine ⟨k + 1, Nat.succ_le_succ hk, ?_, fun _ => ?_, fun hlt => hfull (by omega)⟩
      · rw [hpadded, Nat.add_assoc, Nat.add_comm 1 k]
      · rcases Nat.eq_zero_or_pos k with rfl | hpos
        · exact hroom
        · exact hfits hpos
    · rename_i hfull
      exact ⟨0, Nat.zero_le _, by rw [show tenPow 0 = 1 from rfl, Nat.mul_one]; rfl, nofun,
        fun _ => Nat.not_lt.1 hfull⟩

/-- **What padding does.** Zeros are appended up to the places asked for,
or as many as there is room for. -/
theorem padTo_eq {places : ℕ} (hm : x.magnitude < coeffLimit) (hle : x.scale ≤ places)
    (hzero : x.magnitude = 0 → places ≤ maxScale) : ∃ k ≤ places - x.scale,
    x.padTo places = ⟨x.negative, x.magnitude * tenPow k, x.scale + k⟩ ∧
      x.magnitude * tenPow k < coeffLimit ∧
      (k < places - x.scale → coeffLimit ≤ x.magnitude * tenPow (k + 1)) := by
  have hunit (m : ℕ) : m * tenPow 0 = m := Nat.mul_one m
  unfold padTo
  split_ifs with hdone hnone
  · exact ⟨0, Nat.zero_le _, by rw [hunit]; rfl, by rwa [hunit], fun hlt => by omega⟩
  · have hmagnitude : x.magnitude = 0 := isZero_iff.1 hnone
    refine ⟨places - x.scale, le_rfl, ?_, ?_, fun hlt => absurd hlt (Nat.lt_irrefl _)⟩
    · rw [min_eq_left (hzero hmagnitude), hmagnitude, Nat.zero_mul, Nat.add_sub_cancel' hle]
    · rw [hmagnitude, Nat.zero_mul]
      decide
  · have hpos : 0 < x.magnitude := Nat.pos_of_ne_zero (mt isZero_iff.2 hnone)
    obtain ⟨k, hk, hpadded, hfits, hfull⟩ := x.padZeros_eq (min (places - x.scale) coeffLimit.log2)
    refine ⟨k, hk.trans (min_le_left _ _), hpadded, ?_, fun hlt => ?_⟩
    · rcases Nat.eq_zero_or_pos k with rfl | hsome
      · rwa [hunit]
      · exact hfits hsome
    · rcases Nat.lt_or_ge k coeffLimit.log2 with hmore | hmost
      · exact hfull (lt_min hlt hmore)
      · -- more zeros than any coefficient has digits
        have hpow : tenPow coeffLimit.log2 ≤ tenPow (k + 1) :=
          Nat.pow_le_pow_right (by decide) (by omega)
        have hlimit : coeffLimit ≤ tenPow coeffLimit.log2 := by decide
        exact (hlimit.trans hpow).trans (Nat.le_mul_of_pos_left _ hpos)

theorem toRat_padTo {places : ℕ} (hm : x.magnitude < coeffLimit) (hle : x.scale ≤ places)
    (hzero : x.magnitude = 0 → places ≤ maxScale) : (x.padTo places).toRat = x.toRat := by
  obtain ⟨k, -, hpadded, -⟩ := padTo_eq hm hle hzero
  rw [hpadded, toRat_zeros]

theorem magnitude_padTo_lt {places : ℕ} (hm : x.magnitude < coeffLimit) (hle : x.scale ≤ places)
    (hzero : x.magnitude = 0 → places ≤ maxScale) : (x.padTo places).magnitude < coeffLimit := by
  obtain ⟨k, -, hpadded, hfits, -⟩ := padTo_eq hm hle hzero
  rw [hpadded]
  exact hfits

/-- **A number that fits is padded to the places asked for.** -/
theorem scale_padTo {places : ℕ} (hm : x.magnitude < coeffLimit) (hle : x.scale ≤ places)
    (hzero : x.magnitude = 0 → places ≤ maxScale) : (x.padTo places).scale ≤ places ∧
      (|x.toRat| * 10 ^ places < coeffLimit → (x.padTo places).scale = places) := by
  obtain ⟨k, hk, hpadded, -, hfull⟩ := padTo_eq hm hle hzero
  obtain ⟨more, rfl⟩ := Nat.exists_eq_add_of_le hle
  rw [hpadded, Nat.add_sub_cancel_left] at *
  refine ⟨Nat.add_le_add_left hk _, fun hfits => ?_⟩
  have hdigits : |x.toRat| * 10 ^ (x.scale + more) = (x.magnitude * tenPow more : ℕ) := by
    rw [abs_toRat, tenPow_eq, pow_add]
    push_cast
    field_simp
  have hroom : x.magnitude * tenPow more < coeffLimit := by
    rw [hdigits] at hfits
    exact_mod_cast hfits
  -- were there fewer zeros, the next one would have had no room
  by_contra hne
  dsimp only at hne
  have hpow : tenPow (k + 1) ≤ tenPow more := Nat.pow_le_pow_right (by decide) (by omega)
  exact absurd (hfull (by omega))
    (Nat.not_le.2 ((Nat.mul_le_mul_left x.magnitude hpow).trans_lt hroom))

/-! ## Rounding to significant digits -/

/-- A number with few fractional digits is not rounded. -/
theorem roundsTo_toRat (h : x.scale ≤ places) : RoundsTo places x.toRat x.toRat := by
  obtain ⟨more, rfl⟩ := Int.exists_add_of_le h
  refine roundsTo_self (n := x.coeff * 10 ^ more) ?_
  rw [toRat, zpow_add₀ (by norm_num), zpow_natCast, zpow_natCast]
  push_cast
  field_simp

/-- Significant digits are fractional ones, counted from the other side. -/
theorem roundsToDigits_iff {digits : ℕ} (h : x.magnitude ≠ 0) : RoundsToDigits digits x.toRat r ↔
    RoundsTo (digits - x.digits + x.scale) x.toRat r := by
  rw [RoundsToDigits, log_abs_toRat h]
  ring_nf

/-- Rounding away the fraction and digits in front of the point. -/
theorem roundsTo_whole (x : Scaled) {excess : ℕ} (h : x.scale ≤ excess) :
    RoundsTo (x.scale - excess) x.toRat
      (Decimal.roundDiv x.coeff (tenPow excess) * tenPow (excess - x.scale) : ℤ) := by
  have hsub : (x.scale : ℤ) - excess = -((excess - x.scale : ℕ) : ℤ) := by omega
  refine ⟨Decimal.roundDiv x.coeff (tenPow excess), ?_, ?_⟩
  · have hquot : x.toRat * 10 ^ ((x.scale : ℤ) - excess) = x.coeff / (tenPow excess : ℕ) := by
      rw [toRat, zpow_sub₀ (by norm_num), zpow_natCast, zpow_natCast, tenPow_eq]
      push_cast
      field_simp
    rw [hquot]
    exact Decimal.nearestEven_roundDiv _ (tenPow_pos _)
  · rw [hsub, zpow_neg, zpow_natCast, tenPow_eq (excess - x.scale)]
    push_cast
    rw [div_inv_eq_mul]

/-- **Rounding to significant digits**, unless the rounded number is a
whole one that does not fit. -/
theorem roundsToDigits_roundSignificant (digits : ℕ) (hm : x.magnitude < coeffLimit) :
    ∃ r, RoundsToDigits digits x.toRat r ∧
      (x.roundSignificant digits).toRat = if |r| < coeffLimit then r else x.toRat := by
  have hfew := digits_le hm
  have hsame (h : RoundsToDigits digits x.toRat x.toRat) {y : Scaled} (hy : y.toRat = x.toRat) :
      ∃ r, RoundsToDigits digits x.toRat r ∧ y.toRat = if |r| < coeffLimit then r else x.toRat :=
    ⟨x.toRat, h, by rw [ite_self, hy]⟩
  unfold roundSignificant
  split_ifs with hzero
  · have hmagnitude : x.magnitude = 0 := isZero_iff.1 hzero
    refine hsame ?_ ?_
    · rw [toRat_eq_zero_iff.2 hmagnitude]
      exact roundsTo_self (n := 0) (by norm_num)
    · rw [toRat_eq_zero_iff.2 hmagnitude]
      exact toRat_eq_zero_iff.2 rfl
  have hne : x.magnitude ≠ 0 := mt isZero_iff.2 hzero
  dsimp only
  rw [show (Nat.toDigits 10 x.magnitude).length = x.digits from rfl]
  split_ifs with hless hexact hfraction hfits
  · refine hsame ((roundsToDigits_iff hne).2 (roundsTo_toRat (by omega))) ?_
    exact toRat_padTo hm (by omega) fun h => absurd h hne
  · exact hsame ((roundsToDigits_iff hne).2 (roundsTo_toRat (by omega))) rfl
  · refine ⟨(x.roundPlaces (x.scale - (x.digits - digits))).toRat, (roundsToDigits_iff hne).2 ?_, ?_⟩
    · have hrounds := roundsTo_roundPlaces (x.scale - (x.digits - digits)) hm (.inl (by omega))
      rwa [show ((x.scale - (x.digits - digits) : ℕ) : ℤ) = digits - x.digits + x.scale by omega]
        at hrounds
    · rw [if_pos (abs_toRat_lt (magnitude_roundPlaces_lt _ hm))]
  all_goals
    have hrounds := x.roundsTo_whole (Nat.le_of_not_le hfraction)
    rw [show (x.scale : ℤ) - (x.digits - digits : ℕ) = digits - x.digits + x.scale by omega] at hrounds
    refine ⟨_, (roundsToDigits_iff hne).2 hrounds, ?_⟩
    rw [← Int.cast_abs, Int.abs_eq_natAbs]
  · rw [if_pos (by exact_mod_cast hfits), toRat, coeff_ofCoeff]
    exact div_one _
  · rw [if_neg (by exact_mod_cast hfits)]

theorem magnitude_roundSignificant_lt (digits : ℕ) (hm : x.magnitude < coeffLimit) :
    (x.roundSignificant digits).magnitude < coeffLimit := by
  unfold roundSignificant
  split_ifs with hzero
  · decide
  have hne : x.magnitude ≠ 0 := mt isZero_iff.2 hzero
  dsimp only
  split_ifs with hless hexact hfraction hfits
  · exact magnitude_padTo_lt hm (Nat.le_add_right _ _) fun h => absurd h hne
  · exact hm
  · exact magnitude_roundPlaces_lt _ hm
  · exact hfits
  · exact hm

/-! ## Precision and scale -/

/-- **Rounding to a precision.** -/
theorem keptBy_toPrecision (precision : ℕ) (hm : x.magnitude < coeffLimit) :
    KeptBy precision x.toRat (x.toPrecision precision).toRat := by
  unfold KeptBy toPrecision
  split
  · rfl
  · exact roundsToDigits_roundSignificant precision hm

theorem magnitude_toPrecision_lt (precision : ℕ) (hm : x.magnitude < coeffLimit) :
    (x.toPrecision precision).magnitude < coeffLimit := by
  unfold toPrecision
  split
  · exact hm
  · exact magnitude_roundSignificant_lt precision hm

/-- **Rounding to a scale.** The places are those asked for, or as many as
there is room for. -/
theorem exists_toScale? {places : ℕ} (hm : x.magnitude < coeffLimit) (hplaces : places ≤ maxScale) :
    ∃ y, x.toScale? places = some y ∧ y.scale ≤ places ∧
      (|y.toRat| * 10 ^ places < coeffLimit → y.scale = places) ∧
      (x.HalfHolds places → RoundsTo places x.toRat y.toRat) := by
  have hrounded := magnitude_roundPlaces_lt places hm
  have hscale : (x.roundPlaces places).scale ≤ places := by
    rw [scale_roundPlaces]
    exact min_le_right _ _
  obtain ⟨hle, hfits⟩ := scale_padTo hrounded hscale fun _ => hplaces
  refine ⟨(x.roundPlaces places).padTo places, if_neg (by omega), hle, ?_⟩
  rw [toRat_padTo hrounded hscale fun _ => hplaces]
  exact ⟨hfits, roundsTo_roundPlaces places hm⟩

end Scaled

end SegmentQuery
