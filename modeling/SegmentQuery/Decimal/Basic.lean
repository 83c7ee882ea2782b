import SegmentQuery.Number.Shortest
/-!
# Decimals

A decimal is a sign, a magnitude below 2^96 and up to 28 of its digits
after the point; the bounds are part of the type. Equal numbers may
differ in scale, and the scale is kept until `normalize` drops trailing
zeros. Zero is positive wherever a decimal is made from an integer
coefficient; only rounding a negative number away leaves a negative
zero, which differs from zero in its text alone. Addition is exact while
the sum fits and otherwise gives up as few fractional digits as it must,
a half going to the even digit. `Scaled` is the same triple without
bounds: the shape in which results are rounded and padded before they
are shown.
-/


namespace SegmentQuery

/-- The number `± magnitude / 10 ^ scale`, shown with `scale` digits
after the point. -/
structure Scaled where
  negative : Bool
  magnitude : Nat
  scale : Nat
  deriving DecidableEq, Repr

/-- The magnitude that no coefficient reaches, `2 ^ 96`. -/
def Decimal.coeffLimit : Nat := 79228162514264337593543950336

/-- The most digits a decimal has after the point. -/
def Decimal.maxScale : Nat := 28

/-- A number of at most 96 bits and at most 28 fractional digits. -/
structure Decimal extends Scaled where
  magnitude_lt : magnitude < Decimal.coeffLimit
  scale_le : scale ≤ Decimal.maxScale
  deriving DecidableEq

namespace Scaled

/-- The number `coeff / 10 ^ scale`; zero is positive. -/
def ofCoeff (coeff : Int) (scale : Nat) : Scaled := ⟨decide (coeff < 0), coeff.natAbs, scale⟩

/-- The integer that the digits and the sign make without the point. -/
def coeff (x : Scaled) : Int := if x.negative then -(x.magnitude : Int) else x.magnitude

@[simp]
theorem coeff_ofCoeff (coeff : Int) (scale : Nat) : (ofCoeff coeff scale).coeff = coeff := by
  simp only [ofCoeff, Scaled.coeff, decide_eq_true_eq]
  split <;> omega

@[simp]
theorem natAbs_coeff (x : Scaled) : x.coeff.natAbs = x.magnitude := by
  unfold coeff; split <;> omega

def isZero (x : Scaled) : Bool := x.magnitude == 0

/-- Plain notation with exactly `scale` fractional digits. -/
def text (x : Scaled) : String := Number.plainText x.negative x.magnitude x.scale

/-- The numeric order, blind to scale and to the sign of zero. -/
def compare (x y : Scaled) : Ordering :=
  Ord.compare (x.coeff * Number.tenPow y.scale) (y.coeff * Number.tenPow x.scale)

/-- Drop zeros from the end of the fraction. -/
def stripZeros (coeff : Int) : Nat → Scaled
  | 0 => .ofCoeff coeff 0
  | scale + 1 => if coeff % 10 = 0 then stripZeros (coeff / 10) scale else .ofCoeff coeff (scale + 1)

theorem magnitude_stripZeros_le (coeff : Int) (scale : Nat) :
    (stripZeros coeff scale).magnitude ≤ coeff.natAbs := by
  induction scale generalizing coeff with
  | zero => simp [stripZeros, ofCoeff]
  | succ scale ih =>
    unfold stripZeros
    split
    · exact Nat.le_trans (ih _) (by omega)
    · exact Nat.le_refl _

theorem scale_stripZeros_le (coeff : Int) (scale : Nat) :
    (stripZeros coeff scale).scale ≤ scale := by
  induction scale generalizing coeff with
  | zero => simp [stripZeros, ofCoeff]
  | succ scale ih =>
    unfold stripZeros
    split
    · exact Nat.le_succ_of_le (ih _)
    · exact Nat.le_refl _

end Scaled

namespace Decimal

/-- The decimal with this coefficient and scale, if they are within the
bounds. -/
def ofParts? (coeff : Int) (scale : Nat) : Option Decimal :=
  if h : coeff.natAbs < coeffLimit ∧ scale ≤ maxScale then some ⟨.ofCoeff coeff scale, h.1, h.2⟩
  else none

def zero : Decimal := ⟨.ofCoeff 0 0, by decide, by decide⟩

def ofInt32 (i : Int32) : Decimal :=
  ⟨.ofCoeff i.toInt 0,
    by have := i.toInt_lt; have := i.le_toInt; simp only [Scaled.ofCoeff]; unfold coeffLimit; omega,
    Nat.zero_le _⟩

def ofInt64 (i : Int64) : Decimal :=
  ⟨.ofCoeff i.toInt 0,
    by have := i.toInt_lt; have := i.le_toInt; simp only [Scaled.ofCoeff]; unfold coeffLimit; omega,
    Nat.zero_le _⟩

def text (d : Decimal) : String := d.toScaled.text

/-- The numeric order, blind to scale and to the sign of zero. -/
def compare (x y : Decimal) : Ordering := x.toScaled.compare y.toScaled

/-- The same number with no zero at the end of its fraction; zero
becomes `0`. -/
def normalize (d : Decimal) : Decimal :=
  ⟨Scaled.stripZeros d.coeff d.scale,
    Nat.lt_of_le_of_lt (Scaled.magnitude_stripZeros_le _ _) (by simpa using d.magnitude_lt),
    Nat.le_trans (Scaled.scale_stripZeros_le _ _) d.scale_le⟩

/-! ## Addition -/

/-- `n / d` rounded to the nearest integer, a tie to the even one. -/
def roundDiv (n : Int) (d : Nat) : Int :=
  let q := Number.Layout.roundDiv n.natAbs d
  if n < 0 then -(q : Int) else q

/-- `n / d` rounded to the nearest number, a half going up. -/
def roundHalfUp (n d : Nat) : Nat := (2 * n + d) / (2 * d)

/-- The decimal nearest to `coeff / 10 ^ scale` that keeps the most
fractional digits; none when the whole part alone is too large. -/
def fit? (coeff : Int) (scale : Nat) : Option Decimal :=
  (List.range (scale + 1)).findSome? fun dropped =>
    ofParts? (roundDiv coeff (Number.tenPow dropped)) (scale - dropped)

/-- The sum, or none when it overflows. A zero operand yields the other
one as it stands, scale and sign included. -/
def add? (x y : Decimal) : Option Decimal :=
  if x.isZero then some y
  else if y.isZero then some x
  else
    let scale := max x.scale y.scale
    fit? (x.coeff * Number.tenPow (scale - x.scale) + y.coeff * Number.tenPow (scale - y.scale))
      scale

/-! ## Other number types -/

/-- The whole part as a 64 bit integer, or none when it has more bits. -/
def toInt64? (d : Decimal) : Option Int64 :=
  let whole := d.coeff.tdiv (Number.tenPow d.scale)
  if Int64.minValue.toInt ≤ whole ∧ whole ≤ Int64.maxValue.toInt then some (Int64.ofInt whole)
  else none

/-- `base ^ n` on doubles by repeated squaring. -/
def powDouble (base : Double) (n : Nat) (acc : Double) : Double :=
  if n = 0 then acc
  else
    let acc := if n % 2 = 1 then acc.mul base else acc
    if n / 2 = 0 then acc else powDouble (base.mul base) (n / 2) acc
termination_by n
decreasing_by omega

/-- The double that stands for a decimal: whole part and fraction are
converted apart, added, and rounded back to the decimal's own scale. -/
def toDouble (d : Decimal) : Double :=
  if d.scale = 0 then Double.ofInt d.coeff
  else
    let power := Number.tenPow d.scale
    let whole := Double.ofInt (d.magnitude / power : Nat)
    let fraction := (Double.ofInt (d.magnitude % power : Nat)).div (Double.ofInt power)
    let unsigned :=
      if fraction.numEq Double.zero then whole
      else
        let shift := powDouble (Double.ofInt 10) d.scale (Double.ofInt 1)
        (((whole.add fraction).mul shift).round).div shift
    if d.negative then unsigned.neg else unsigned

end Decimal

end SegmentQuery
