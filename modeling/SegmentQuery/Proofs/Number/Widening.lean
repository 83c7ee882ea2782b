import SegmentQuery.Proofs.Number.Patterns
/-!
# Widening keeps the order

A single and the double that it widens to stand for the same number, so
comparing singles and comparing their doubles is one thing. In units of
the least exponent the significand of a pattern grows with the pattern,
and the nearest double grows with the number.
-/


namespace SegmentQuery

namespace Number

namespace Layout

/-! ## Patterns as whole numbers -/

/-- What a pattern without its sign stands for, in units of the least
exponent. -/
def units (l : Layout) (g : Nat) : Nat :=
  l.significand g * twoPow (g / twoPow l.fractionBits - 1)

theorem units_lt (l : Layout) (g : Nat) :
    l.units g < twoPow l.fractionBits * twoPow (g / twoPow l.fractionBits) := by
  have hmod := Nat.mod_lt g (twoPow_pos l.fractionBits)
  unfold units
  rcases Nat.eq_zero_or_pos (g / twoPow l.fractionBits) with hzero | hpos
  · rw [significand, hzero, if_pos rfl]
    exact Nat.mul_lt_mul_of_pos_right hmod (twoPow_pos 0)
  · obtain ⟨k, hk⟩ := Nat.exists_eq_succ_of_ne_zero hpos.ne'
    have hlt := l.significand_lt g
    rw [hk, Nat.succ_sub_one, Nat.succ_eq_add_one, twoPow_add, show twoPow 1 = 2 from rfl,
      Nat.mul_comm (twoPow k) 2, ← Nat.mul_assoc, Nat.mul_comm (twoPow l.fractionBits) 2]
    exact Nat.mul_lt_mul_of_pos_right hlt (twoPow_pos k)

theorem le_units (l : Layout) {g : Nat} (h : g / twoPow l.fractionBits ≠ 0) :
    twoPow l.fractionBits * twoPow (g / twoPow l.fractionBits - 1) ≤ l.units g := by
  unfold units significand
  rw [if_neg h]
  exact Nat.mul_le_mul_right _ (Nat.le_add_right _ _)

/-- **A greater pattern stands for a greater number.** -/
theorem units_mono (l : Layout) : Monotone l.units := by
  intro g g' h
  have hfield : g / twoPow l.fractionBits ≤ g' / twoPow l.fractionBits := Nat.div_le_div_right h
  rcases hfield.eq_or_lt with heq | hlt
  · -- in one field the fractions decide
    have hg := Nat.div_add_mod g (twoPow l.fractionBits)
    have hg' := Nat.div_add_mod g' (twoPow l.fractionBits)
    rw [heq] at hg
    have hmod : g % twoPow l.fractionBits ≤ g' % twoPow l.fractionBits := by omega
    unfold units significand
    rw [heq]
    refine Nat.mul_le_mul_right _ ?_
    split <;> omega
  · calc l.units g
        ≤ twoPow l.fractionBits * twoPow (g / twoPow l.fractionBits) := (l.units_lt g).le
      _ ≤ twoPow l.fractionBits * twoPow (g' / twoPow l.fractionBits - 1) :=
          Nat.mul_le_mul_left _ (twoPow_mono (by omega))
      _ ≤ l.units g' := l.le_units (Nat.zero_lt_of_lt hlt).ne'

/-- A pattern read as a whole number has the nearest pattern of the number
that it stands for. -/
theorem magnitude_units (l target : Layout) (g : Nat) :
    target.magnitude (l.units g) l.leastExponent =
      target.magnitude (l.significand g) (l.exponentOf g) := by
  have hexponent : (l.exponentOf g - l.leastExponent).toNat = g / twoPow l.fractionBits - 1 := by
    unfold exponentOf
    omega
  rw [← magnitude_of_le target _ (l.leastExponent_le_exponentOf g), hexponent]
  rfl

/-- The number of a pattern is its sign and the rest. -/
theorem signedMagnitude_signPart_add (l : Layout) (negative : Bool) {g : Nat} (hg : g < l.signBit) :
    signedMagnitude l.signBit (l.signPart negative + g) = if negative then -(g : Int) else g := by
  unfold signedMagnitude signPart
  cases negative
  · simp [hg]
  · simp

end Layout

end Number

open Number

namespace Single

/-- The pattern, without its sign, of a widened number. -/
def wide (g : Nat) : Nat :=
  if g = Layout.single.infinity then Layout.double.infinity
  else Layout.double.magnitude (Layout.single.significand g) (Layout.single.exponentOf g)

theorem wide_le (g : Nat) : wide g ≤ Layout.double.infinity := by
  unfold wide
  split
  · exact Nat.le_refl _
  · exact Layout.magnitude_le _ _ _

theorem wide_mono {g g' : Nat} (h : g ≤ g') (hg' : g' ≤ Layout.single.infinity) :
    wide g ≤ wide g' := by
  by_cases htop : g' = Layout.single.infinity
  · rw [htop, wide, wide, if_pos rfl]
    exact wide_le g
  · rw [wide, wide, if_neg (by omega), if_neg htop, ← Layout.magnitude_units,
      ← Layout.magnitude_units]
    exact Layout.magnitude_mono Layout.double _ (Layout.single.units_mono h)

/-- **Widening keeps the sign**, and makes a NaN of a NaN only. -/
theorem widen_eq (x : Single) : ∃ negative g, g < Layout.single.signBit ∧
    x.bits.toNat = Layout.single.signPart negative + g ∧
    x.isNan = decide (Layout.single.infinity < g) ∧
    (x.isNan = true → x.widen = Double.nan) ∧
    (x.isNan = false → x.widen.bits.toNat = Layout.double.signPart negative + wide g) := by
  have hbits : x.bits.toNat < 2 * Layout.single.signBit := x.bits.toNat_lt
  obtain ⟨negative, g, hg, hx⟩ := Layout.exists_signPart_add Layout.single hbits
  have hdatum : x.datum = _ :=
    (congrArg Layout.single.datum hx).trans (Layout.datum_signPart_add _ negative hg)
  have hnan : x.isNan = decide (Layout.single.infinity < g) := by
    rw [isNan, hx, Layout.signPart_add_mod _ negative hg]
  refine ⟨negative, g, hg, hx, hnan, fun h => ?_, fun h => ?_⟩
  · rw [hnan, decide_eq_true_iff] at h
    rw [widen, hdatum, if_pos h]
    rfl
  · rw [hnan, decide_eq_false_iff_not] at h
    rw [widen, Double.toNat_bits_ofDatum, hdatum, if_neg h, wide]
    split <;> rfl

theorem isNan_widen (x : Single) : x.widen.isNan = x.isNan := by
  obtain ⟨negative, g, -, -, -, hnan, hnumber⟩ := x.widen_eq
  cases h : x.isNan with
  | true =>
    rw [hnan h]
    rfl
  | false =>
    have hlt := (wide_le g).trans_lt Layout.double.infinity_lt_signBit
    rw [Double.isNan, hnumber h, Layout.signPart_add_mod _ negative hlt]
    exact decide_eq_false (Nat.not_lt.2 (wide_le g))

/-- Widening keeps what is at most another number. -/
theorem le_widen {x y : Single} (h : x.le y) : x.widen.le y.widen := by
  simp only [le, Bool.and_eq_true, Bool.not_eq_true', decide_eq_true_eq] at h
  obtain ⟨⟨hx, hy⟩, hrank⟩ := h
  rw [Double.le_eq_of_not_nan (x.isNan_widen.trans hx) (y.isNan_widen.trans hy), decide_eq_true_iff]
  obtain ⟨negative, g, hg, hbits, hnan, -, hwide⟩ := x.widen_eq
  obtain ⟨negative', g', hg', hbits', hnan', -, hwide'⟩ := y.widen_eq
  rw [hnan, decide_eq_false_iff_not, Nat.not_lt] at hx
  rw [hnan', decide_eq_false_iff_not, Nat.not_lt] at hy
  have htop := Layout.double.infinity_lt_signBit
  rw [Double.rank, Double.rank, hwide (by rw [hnan]; exact decide_eq_false (Nat.not_lt.2 hx)),
    hwide' (by rw [hnan']; exact decide_eq_false (Nat.not_lt.2 hy)),
    Layout.signedMagnitude_signPart_add _ _ ((wide_le g).trans_lt htop),
    Layout.signedMagnitude_signPart_add _ _ ((wide_le g').trans_lt htop)]
  rw [rank, rank, hbits, hbits', Layout.signedMagnitude_signPart_add _ _ hg,
    Layout.signedMagnitude_signPart_add _ _ hg'] at hrank
  -- a negative number is below a positive one, and two of one sign go by their patterns
  cases negative <;> cases negative' <;> simp only [if_true, if_false, Bool.false_eq_true] at hrank ⊢
  · exact_mod_cast wide_mono (by omega) hy
  · have hzero : g = 0 ∧ g' = 0 := by omega
    obtain ⟨rfl, rfl⟩ := hzero
    decide
  · omega
  · have hle := wide_mono (show g' ≤ g by omega) hx
    omega

/-- A number that widens to a zero is a zero. -/
theorem rank_eq_zero_of_widen {x : Single} (hx : x.isNan = false) (h : x.widen.rank = 0) :
    x.rank = 0 := by
  have hzero : x.widen = ⟨0⟩ ∨ x.widen = ⟨0x8000000000000000⟩ := by
    generalize x.widen = w at h ⊢
    obtain ⟨bits⟩ := w
    have hbits : bits.toNat = 0 ∨ bits.toNat = Layout.double.signBit := by
      unfold Double.rank signedMagnitude at h
      dsimp only at h
      split at h <;> omega
    exact hbits.imp (fun h => congrArg Double.mk (UInt64.toNat_inj.1 h))
      fun h => congrArg Double.mk (UInt64.toNat_inj.1 h)
  have hnarrow := x.narrow_widen
  rw [quiet, hx, if_neg Bool.false_ne_true] at hnarrow
  rcases hzero with h | h <;> (rw [h] at hnarrow; rw [← hnarrow]; decide)

/-- **Comparing singles is comparing their doubles.** -/
@[simp] theorem widen_le_widen (x y : Single) : x.widen.le y.widen = x.le y := by
  refine Bool.eq_iff_iff.2 ⟨fun h => ?_, le_widen⟩
  have hnan := h
  simp only [Double.le, isNan_widen, Bool.and_eq_true, Bool.not_eq_true', decide_eq_true_eq] at hnan
  obtain ⟨⟨hx, hy⟩, hrank⟩ := hnan
  by_contra hle
  have hlt : y.rank < x.rank := by
    simp only [le, hx, hy, Bool.not_false, Bool.true_and, decide_eq_true_eq] at hle
    omega
  have hyx : y.le x := by simp [le, hx, hy, hlt.le]
  -- then the doubles are of one rank, and the singles are one
  have hback := le_widen hyx
  simp only [Double.le, isNan_widen, hx, hy, Bool.not_false, Bool.true_and, decide_eq_true_eq] at hback
  have heq : x.widen.rank = y.widen.rank := Int.le_antisymm hrank hback
  by_cases hzero : x.widen.rank = 0
  · have := rank_eq_zero_of_widen hx hzero
    have := rank_eq_zero_of_widen hy (heq ▸ hzero)
    omega
  · have hsame := congrArg Double.narrow (Double.eq_of_rank_eq heq hzero)
    rw [narrow_widen, narrow_widen, quiet, quiet, hx, hy] at hsame
    simp only [Bool.false_eq_true, if_false] at hsame
    rw [hsame] at hlt
    exact Int.lt_irrefl _ hlt

end Single

end SegmentQuery
