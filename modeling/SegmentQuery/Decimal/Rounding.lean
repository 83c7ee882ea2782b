import SegmentQuery.Decimal.Basic
import SegmentQuery.Number.Power
/-!
# Rounding to a precision or a scale

A result may be asked for with a number of significant digits, with a
number of fractional digits, or with both, significant digits first. A
half goes to the even digit. Padding with zeros goes on for as long as
the coefficient stays within 96 bits, even past the scale that a stored
decimal may have. What is rounded must fit a stored decimal again, so a
number padded past 28 fractional digits cannot be rounded to more than
28, and a number with more than 30 has no text.

The half that decides is kept in 96 bits, like a coefficient. Up to 28
dropped digits it is exact.
-/


namespace SegmentQuery

namespace Scaled

/-- The upper half of what rounding drops begins here. The half of more
digits than a coefficient has wraps around. -/
def half (dropped : Nat) : Nat := 5 * Number.tenPow (dropped - 1) % Decimal.coeffLimit

/-- Round to at most `places` fractional digits, a half to the even
one. A negative number that is rounded away becomes zero; a negative
zero stays one. -/
def roundPlaces (x : Scaled) (places : Nat) : Scaled :=
  if x.scale ≤ places then x
  else if x.isZero then { x with scale := places }
  else
    let dropped := x.scale - places
    let whole := x.magnitude / Number.tenPow dropped
    let rest := x.magnitude % Number.tenPow dropped
    let up := decide (half dropped < rest) || (rest == half dropped && whole % 2 == 1)
    let rounded := if up then whole + 1 else whole
    ⟨x.negative && rounded != 0, rounded, places⟩

/-- Append up to `n` zeros to the fraction while the coefficient fits. -/
def padZeros (x : Scaled) : Nat → Scaled
  | 0 => x
  | n + 1 =>
    if x.magnitude * 10 < Decimal.coeffLimit then
      padZeros { x with magnitude := x.magnitude * 10, scale := x.scale + 1 } n
    else x

/-- Pad to `places` fractional digits as far as the coefficient goes.
Zero takes at most 28 of them. -/
def padTo (x : Scaled) (places : Nat) : Scaled :=
  if places ≤ x.scale then x
  else if x.isZero then { x with scale := min places Decimal.maxScale }
  else x.padZeros (min (places - x.scale) Decimal.coeffLimit.log2)

/-- Round to `digits` significant digits, padding when there are fewer.
A whole number that would outgrow the coefficient is left as it is. -/
def roundSignificant (x : Scaled) (digits : Nat) : Scaled :=
  if x.isZero then .ofCoeff 0 0
  else
    let shown := (Nat.toDigits 10 x.magnitude).length
    if shown < digits then x.padTo (x.scale + (digits - shown))
    else
      let excess := shown - digits
      if excess = 0 then x
      else if excess ≤ x.scale then x.roundPlaces (x.scale - excess)
      else
        let whole := Decimal.roundDiv x.coeff (Number.tenPow excess) * Number.tenPow (excess - x.scale)
        if whole.natAbs < Decimal.coeffLimit then .ofCoeff whole 0 else x

/-- Round to a precision; 0 asks for no rounding. -/
def toPrecision (x : Scaled) (precision : Nat) : Scaled :=
  if precision = 0 then x else x.roundSignificant precision

/-- Round to `places` fractional digits and pad up to them; none when
rounding leaves more fractional digits than a stored decimal has. -/
def toScale? (x : Scaled) (places : Nat) : Option Scaled :=
  if Decimal.maxScale < places ∧ places < x.scale then none
  else some ((x.roundPlaces places).padTo places)

/-- The most fractional digits that a text has. -/
def maxPlaces : Nat := 30

/-- Plain notation, none for a number with too many fractional digits. -/
def text? (x : Scaled) : Option String := if x.scale ≤ maxPlaces then some x.text else none

end Scaled

end SegmentQuery
