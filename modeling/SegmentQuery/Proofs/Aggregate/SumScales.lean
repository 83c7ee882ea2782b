import SegmentQuery.Aggregate.Merge
import SegmentQuery.Proofs.Number.Rounding
/-!
# Decimal sums under a precision and a scale

A decimal sum that is asked for with a scale always has a text. It shows
the sum rounded twice, to its precision and then to its scale, within what
96 bits hold: a precision whose rounding does not fit leaves the sum as it
is, and the places of a long sum are as many as there is room for.
-/


namespace SegmentQuery

namespace AggregateFunction

open Decimal (greatest)

/-- The text shows a sum that was rounded to a precision and then to a
scale. -/
def ShowsRounded (total : Decimal) (precision scale : ℕ) (text : String) : Prop :=
  ∃ kept value places, KeptBy precision total.toRat kept ∧
    ((total.toPrecision precision).HalfHolds scale → RoundsTo scale kept value) ∧
    Shows text places value ∧ places ≤ scale ∧
    (|value| * 10 ^ scale < Decimal.coeffLimit → places = scale)

/-- **A decimal sum with a scale has a text**, which shows it rounded to
its precision and then to its scale. -/
theorem finalize_showsRounded (column : String) (precision : ℕ) (nullHandling : Bool) {scale : ℕ}
    (hscale : scale ≤ Decimal.maxScale) (total : Decimal) : ∃ text,
      (sumPrecision column precision (some scale) nullHandling).finalize (.bigDecimal total) =
        .ok (.string text) ∧ ShowsRounded total precision scale text := by
  have hfits := Scaled.magnitude_toPrecision_lt precision total.magnitude_lt
  obtain ⟨shown, hshown, hplaces, hroom, hrounds⟩ := Scaled.exists_toScale? hfits hscale
  have hround : roundSum precision (some scale) total = .ok shown := by
    simp only [roundSum, hshown]
  have htext : sumText shown = .ok shown.text := by
    have hwritten : shown.text? = some shown.text :=
      if_pos (hplaces.trans (hscale.trans (by decide)))
    simp only [sumText, hwritten]
  refine ⟨shown.text, ?_, (total.toPrecision precision).toRat, shown.toRat, shown.scale,
    Scaled.keptBy_toPrecision precision total.magnitude_lt, hrounds, shown.shows_text, hplaces, hroom⟩
  show (do
    let rounded ← roundSum precision (some scale) total
    return Cell.string (← sumText rounded)) = _
  rw [hround]
  show (do return Cell.string (← sumText shown)) = _
  rw [htext]
  rfl

/-- The first rounding may carry into another digit. -/
theorem finalize_showsRounded_carry :
    let total : Decimal := ⟨.ofCoeff 9996 3, by decide, by decide⟩
    2 ≤ Decimal.maxScale ∧
      (sumPrecision "v" 3 (some 2) false).finalize (.bigDecimal total) = .ok (.string "10.00") ∧
      ShowsRounded total 3 2 "10.00" := by
  intro total
  have hscale : 2 ≤ Decimal.maxScale := by decide
  have htext : (sumPrecision "v" 3 (some 2) false).finalize (.bigDecimal total) =
      .ok (.string "10.00") := by decide
  obtain ⟨text, hfinal, hshows⟩ := finalize_showsRounded "v" 3 false hscale total
  obtain rfl : "10.00" = text := Cell.string.inj (Except.ok.inj (htext.symm.trans hfinal))
  exact ⟨hscale, htext, hshows⟩

/-- To one digit the greatest decimal is 8 · 10 ^ 28, which does not fit:
it is shown as it is. -/
theorem finalize_greatest_not_rounded :
    ¬ ∃ text kept value,
      (sumPrecision "v" 1 (some 0) false).finalize (.bigDecimal greatest) = .ok (.string text) ∧
        RoundsToDigits 1 greatest.toRat kept ∧ RoundsTo 0 kept value ∧ Shows text 0 value := by
  rintro ⟨text, kept, value, htext, hkept, hvalue, hshows⟩
  have hshown : (sumPrecision "v" 1 (some 0) false).finalize (.bigDecimal greatest) =
      .ok (.string greatest.text) := by rfl
  obtain rfl : greatest.text = text := Cell.string.inj (Except.ok.inj (hshown.symm.trans htext))
  have hgreatest : greatest.toRat = 79228162514264337593543950335 := by
    norm_num [greatest, Decimal.toRat, Scaled.coeff]
  have hvalue' : value = 79228162514264337593543950335 :=
    (hshows.unique greatest.shows_text).2.trans hgreatest
  -- the two roundings make another number
  have hplaces : ((1 : ℕ) : ℤ) - greatest.digits + greatest.scale = 1 - 29 := by decide
  have height : RoundsTo (1 - 29) greatest.toRat (80000000000000000000000000000 : ℤ) := by
    refine ⟨8, ⟨?_, ?_⟩, by norm_num⟩ <;> rw [hgreatest] <;> norm_num [abs_of_neg]
  have hkept' : kept = (80000000000000000000000000000 : ℤ) := by
    have hrounded := (Scaled.roundsToDigits_iff (x := greatest.toScaled) (by decide)).1 hkept
    rw [hplaces] at hrounded
    exact hrounded.unique height
  have hwhole : RoundsTo 0 kept kept := roundsTo_self (n := 80000000000000000000000000000) (by
    rw [hkept']
    norm_num)
  rw [hvalue.unique hwhole, hkept'] at hvalue'
  norm_num at hvalue'

end AggregateFunction

end SegmentQuery
