import SegmentQuery.Proofs.Number.Nearest
import SegmentQuery.Proofs.Order.Directions
/-!
# Sums of decimals

A sum of two decimals is exact whenever it is a number that some decimal
stands for: the digits that are given up to make it fit are then zeros.
What depends on the operands is the scale of the sum. It is the greater one
of theirs while the sum fits with it and neither operand is zero; beside a
zero the other operand keeps its own.
-/


namespace SegmentQuery

open Number

namespace Decimal

variable {x y z : Decimal} {coeff : Int} {scale : Nat}

/-- The greatest decimal. -/
def greatest : Decimal := ⟨⟨false, 79228162514264337593543950335, 0⟩, by decide, by decide⟩

/-- The number is the value of some decimal. -/
def IsValue (q : ℚ) : Prop := ∃ d : Decimal, d.toRat = q

/-! ## Values -/

/-- Decimals tie exactly when they have one value. -/
theorem compare_eq_iff_toRat : x.compare y = .eq ↔ x.toRat = y.toRat := by
  rw [compare, Scaled.compare, compare_eq_iff_eq, toRat, toRat,
    div_eq_div_iff (by positivity) (by positivity), tenPow_eq, tenPow_eq]
  exact_mod_cast Iff.rfl

theorem isZero_iff_toRat : x.isZero = true ↔ x.toRat = 0 := by
  have hcoeff : x.coeff = 0 ↔ x.magnitude = 0 := by
    rw [← Scaled.natAbs_coeff, Int.natAbs_eq_zero]
  rw [Scaled.isZero, beq_iff_eq, ← hcoeff, toRat, div_eq_zero_iff, Int.cast_eq_zero]
  exact (or_iff_left (by positivity)).symm

/-- A coefficient and a scale within the bounds make a decimal. -/
theorem exists_ofParts? (hcoeff : coeff.natAbs < coeffLimit) (hscale : scale ≤ maxScale) :
    ∃ z, ofParts? coeff scale = some z ∧ z.toScaled = .ofCoeff coeff scale := by
  rw [ofParts?, dif_pos ⟨hcoeff, hscale⟩]
  exact ⟨_, rfl, rfl⟩

theorem of_ofParts? (h : ofParts? coeff scale = some z) :
    z.toScaled = .ofCoeff coeff scale ∧ coeff.natAbs < coeffLimit := by
  unfold ofParts? at h
  split at h
  · rename_i hfits
    obtain rfl := Option.some.inj h
    exact ⟨rfl, hfits.1⟩
  · exact nomatch h

theorem toRat_of_toScaled (h : z.toScaled = .ofCoeff coeff scale) :
    z.toRat = coeff / 10 ^ scale := by
  rw [toRat, h, Scaled.coeff_ofCoeff]
  rfl

theorem toRat_mk (hcoeff : (Scaled.ofCoeff coeff scale).magnitude < coeffLimit)
    (hscale : (Scaled.ofCoeff coeff scale).scale ≤ maxScale) :
    toRat ⟨.ofCoeff coeff scale, hcoeff, hscale⟩ = coeff / 10 ^ scale := toRat_of_toScaled rfl

/-! ## Fitting -/

/-- Dividing a multiple needs no rounding. -/
theorem roundDiv_mul (c : Int) {d : Nat} (hd : 0 < d) : roundDiv (c * d) d = c := by
  have hnat : Layout.roundDiv (c * d).natAbs d = c.natAbs := by
    rw [Int.natAbs_mul, Int.natAbs_natCast, Layout.roundDiv_mul _ hd]
  have hsign : c * d < 0 ↔ c < 0 := by
    rw [Int.mul_neg_iff]
    omega
  simp only [roundDiv, hnat, hsign]
  split <;> omega

theorem roundDiv_one (c : Int) : roundDiv c (tenPow 0) = c := by
  have hmul := roundDiv_mul c (tenPow_pos 0)
  rwa [show c * ((tenPow 0 : Nat) : Int) = c from Int.mul_one c] at hmul

/-- The fewest digits are given up that must be. -/
theorem exists_of_fit? (h : fit? coeff scale = some z) : ∃ dropped ≤ scale,
    z.toScaled = .ofCoeff (roundDiv coeff (tenPow dropped)) (scale - dropped) ∧
      ∀ fewer < dropped, ofParts? (roundDiv coeff (tenPow fewer)) (scale - fewer) = none := by
  obtain ⟨before, dropped, after, hrange, hsome, hnone⟩ := List.findSome?_eq_some_iff.1 h
  have hmem : dropped ∈ List.range (scale + 1) :=
    hrange ▸ List.mem_append_right before List.mem_cons_self
  refine ⟨dropped, Nat.le_of_lt_succ (List.mem_range.1 hmem), (of_ofParts? hsome).1,
    fun fewer hfewer => hnone fewer ?_⟩
  -- the numbers are tried in ascending order
  have hfewerMem : fewer ∈ List.range (scale + 1) :=
    List.mem_range.2 (hfewer.trans (List.mem_range.1 hmem))
  have hsorted : List.Pairwise (· < ·) (before ++ dropped :: after) :=
    hrange ▸ List.pairwise_lt_range
  rw [hrange, List.mem_append, List.mem_cons] at hfewerMem
  rcases hfewerMem with hbefore | rfl | hafter
  · exact hbefore
  · exact absurd hfewer (Nat.lt_irrefl _)
  · have hlater := (List.pairwise_cons.1 (List.pairwise_append.1 hsorted).2.1).1 fewer hafter
    exact absurd hfewer (Nat.lt_asymm hlater)

/-- The digits of a value that reach past its scale are zeros. -/
theorem exists_eq_mul_tenPow (h : IsValue (coeff / 10 ^ scale)) :
    ∃ c : Int, ∃ dropped ≤ scale, coeff = c * tenPow dropped ∧ c.natAbs < coeffLimit := by
  obtain ⟨d, hd⟩ := h
  have hcross : d.coeff * (10 : Int) ^ scale = coeff * 10 ^ d.scale := by
    rw [toRat, div_eq_div_iff (by positivity) (by positivity)] at hd
    exact_mod_cast hd
  have hlt : d.coeff.natAbs < coeffLimit := by
    rw [Scaled.natAbs_coeff]
    exact d.magnitude_lt
  rcases Nat.le_total d.scale scale with hle | hle
  · refine ⟨d.coeff, scale - d.scale, Nat.sub_le _ _, ?_, hlt⟩
    apply mul_right_cancel₀ (pow_ne_zero d.scale (by decide : (10 : Int) ≠ 0))
    rw [← hcross, tenPow_eq]
    push_cast
    rw [mul_assoc, ← pow_add, Nat.sub_add_cancel hle]
  · -- a finer scale only makes the coefficient greater
    refine ⟨coeff, 0, Nat.zero_le _, (Int.mul_one coeff).symm, ?_⟩
    have hcoeff : d.coeff = coeff * 10 ^ (d.scale - scale) := by
      apply mul_right_cancel₀ (pow_ne_zero scale (by decide : (10 : Int) ≠ 0))
      rw [hcross, mul_assoc, ← pow_add, Nat.sub_add_cancel hle]
    have hpow : 1 ≤ 10 ^ (d.scale - scale) := Nat.one_le_pow _ _ (by decide)
    refine (Nat.le_mul_of_pos_right coeff.natAbs hpow).trans_lt ?_
    rw [hcoeff, Int.natAbs_mul, Int.natAbs_pow] at hlt
    exact hlt

/-- **A value is fitted exactly.** -/
theorem fit?_of_isValue (hscale : scale ≤ maxScale) (h : IsValue (coeff / 10 ^ scale)) :
    ∃ z, fit? coeff scale = some z ∧ z.toRat = coeff / 10 ^ scale := by
  obtain ⟨c, exact, hexact, hcoeff, hfits⟩ := exists_eq_mul_tenPow h
  have hround {fewer : Nat} (hfewer : fewer ≤ exact) :
      roundDiv coeff (tenPow fewer) = c * tenPow (exact - fewer) := by
    have hpow : tenPow exact = tenPow (exact - fewer) * tenPow fewer := by
      rw [← tenPow_add, Nat.sub_add_cancel hfewer]
    rw [hcoeff, hpow, Int.natCast_mul, ← mul_assoc, roundDiv_mul _ (tenPow_pos fewer)]
  have htried : (ofParts? (roundDiv coeff (tenPow exact)) (scale - exact)).isSome := by
    have hone : ((tenPow (exact - exact) : Nat) : Int) = 1 := by
      rw [Nat.sub_self]
      rfl
    rw [hround le_rfl, hone, Int.mul_one]
    obtain ⟨z, hz, -⟩ := exists_ofParts? hfits (Nat.le_trans (Nat.sub_le scale exact) hscale)
    rw [hz]
    rfl
  cases hfit : fit? coeff scale with
  | none =>
    have hnone := List.findSome?_eq_none_iff.1 hfit exact (List.mem_range.2 (by omega))
    rw [hnone] at htried
    exact nomatch htried
  | some z =>
    obtain ⟨dropped, -, hz, hfewer⟩ := exists_of_fit? hfit
    have hdropped : dropped ≤ exact := by
      refine Nat.le_of_not_lt fun hlt => ?_
      rw [hfewer exact hlt] at htried
      exact nomatch htried
    refine ⟨z, rfl, ?_⟩
    rw [toRat_of_toScaled hz, hround hdropped, hcoeff, div_eq_div_iff (by positivity) (by positivity)]
    have hpow : (10 : ℚ) ^ (exact - dropped) * 10 ^ scale = 10 ^ exact * 10 ^ (scale - dropped) := by
      rw [← pow_add, ← pow_add]
      congr 1
      omega
    push_cast [tenPow_eq]
    rw [mul_assoc, hpow, mul_assoc]

/-- Nothing is given up of what fits. -/
theorem fit?_of_lt (hscale : scale ≤ maxScale) (hcoeff : coeff.natAbs < coeffLimit) :
    ∃ z, fit? coeff scale = some z ∧ z.toScaled = .ofCoeff coeff scale := by
  obtain ⟨z, hz, hscaled⟩ := exists_ofParts? hcoeff hscale
  refine ⟨z, ?_, hscaled⟩
  rw [fit?, List.range_succ_eq_map, List.findSome?_cons, roundDiv_one, Nat.sub_zero, hz]

/-! ## Adding -/

/-- The sum of two coefficients at the greater one of the scales. -/
theorem toRat_add (x y : Decimal) : x.toRat + y.toRat =
    ((x.coeff * tenPow (max x.scale y.scale - x.scale) +
      y.coeff * tenPow (max x.scale y.scale - y.scale) : Int) : ℚ) / 10 ^ max x.scale y.scale := by
  have hpow {s : Nat} (h : s ≤ max x.scale y.scale) :
      (10 : ℚ) ^ max x.scale y.scale = 10 ^ (max x.scale y.scale - s) * 10 ^ s := by
    rw [← pow_add, Nat.sub_add_cancel h]
  rw [toRat, toRat]
  push_cast [tenPow_eq]
  rw [add_div, hpow (le_max_left x.scale y.scale), mul_comm (x.coeff : ℚ),
    mul_div_mul_left _ _ (by positivity), ← hpow (le_max_left x.scale y.scale),
    hpow (le_max_right x.scale y.scale), mul_comm (y.coeff : ℚ), mul_div_mul_left _ _ (by positivity)]

theorem max_scale_le (x y : Decimal) : max x.scale y.scale ≤ maxScale :=
  max_le x.scale_le y.scale_le

/-- **A sum that is a value is exact.** -/
theorem add?_of_isValue (h : IsValue (x.toRat + y.toRat)) :
    ∃ z, x.add? y = some z ∧ z.toRat = x.toRat + y.toRat := by
  unfold add?
  split
  · rename_i hzero
    rw [isZero_iff_toRat.1 hzero, zero_add]
    exact ⟨y, rfl, rfl⟩
  · split
    · rename_i hzero
      rw [isZero_iff_toRat.1 hzero, add_zero]
      exact ⟨x, rfl, rfl⟩
    · rw [toRat_add] at h ⊢
      exact fit?_of_isValue (max_scale_le x y) h

/-- **The scale of a sum** is the greater one of the operands' scales when
no operand is zero and the sum fits with it. -/
theorem scale_of_add? (hx : x.toRat ≠ 0) (hy : y.toRat ≠ 0)
    (hfits : |x.toRat + y.toRat| * 10 ^ max x.scale y.scale < coeffLimit)
    (h : x.add? y = some z) : z.scale = max x.scale y.scale := by
  rw [toRat_add, abs_div, abs_of_pos (show (0 : ℚ) < 10 ^ max x.scale y.scale by positivity),
    div_mul_cancel₀ _ (by positivity), ← Int.cast_abs, Int.abs_eq_natAbs] at hfits
  obtain ⟨z', hfit, hz'⟩ := fit?_of_lt (max_scale_le x y) (by exact_mod_cast hfits)
  rw [add?, if_neg (mt isZero_iff_toRat.1 hx), if_neg (mt isZero_iff_toRat.1 hy)] at h
  obtain rfl := Option.some.inj (hfit.symm.trans h)
  rw [hz']
  rfl

end Decimal

end SegmentQuery
