import SegmentQuery.Number.Power
/-!
# Binary floating-point layouts

A layout packs a sign, an exponent field and a fraction field into one
bit pattern. `Layout.datum` reads a pattern as the number it stands for
and `Layout.pattern` writes a number, rounding to the nearest pattern
and breaking ties toward an even fraction. The three layouts in use are
the 16, 32 and 64 bit ones; only the last two are cell types, the first
appears on the wire alone.
-/


namespace SegmentQuery

namespace Number

/-- What a bit pattern stands for. A finite datum is
`± significand · 2 ^ exponent`; the payload and sign of a NaN are not
kept. -/
inductive Datum
  | nan
  | infinite (negative : Bool)
  | finite (negative : Bool) (significand : Nat) (exponent : Int)
  deriving DecidableEq, Repr

/-- The widths of the two fields beside the sign bit. -/
structure Layout where
  exponentBits : Nat
  fractionBits : Nat
  deriving DecidableEq, Repr

namespace Layout

/-- The 16 bit layout. -/
def half : Layout := ⟨5, 10⟩

/-- The 32 bit layout. -/
def single : Layout := ⟨8, 23⟩

/-- The 64 bit layout. -/
def double : Layout := ⟨11, 52⟩

/-- The pattern whose only set bit is the sign. -/
def signBit (l : Layout) : Nat := twoPow (l.exponentBits + l.fractionBits)

/-- The pattern of positive infinity: all exponent bits, no fraction. -/
def infinity (l : Layout) : Nat := (twoPow l.exponentBits - 1) * twoPow l.fractionBits

/-- The pattern of the positive quiet NaN. -/
def quietNan (l : Layout) : Nat := l.infinity + twoPow (l.fractionBits - 1)

/-- The exponent of the least positive datum. -/
def leastExponent (l : Layout) : Int :=
  2 - (twoPow (l.exponentBits - 1) : Int) - l.fractionBits

/-- Read a bit pattern. -/
def datum (l : Layout) (bits : Nat) : Datum :=
  let negative := decide (l.signBit ≤ bits)
  let magnitude := bits % l.signBit
  if l.infinity < magnitude then .nan
  else if magnitude = l.infinity then .infinite negative
  else
    let exponent := magnitude / twoPow l.fractionBits
    let fraction := magnitude % twoPow l.fractionBits
    if exponent = 0 then .finite negative fraction l.leastExponent
    else .finite negative (twoPow l.fractionBits + fraction) (l.leastExponent + (exponent - 1 : Nat))

/-- `n / d` rounded to the nearest natural number, a tie to the even
one. -/
def roundDiv (n d : Nat) : Nat :=
  let q := n / d
  let r := n % d
  if 2 * r < d then q
  else if d < 2 * r then q + 1
  else if q % 2 = 0 then q else q + 1

/-- The pattern nearest to `m · 2 ^ e`. The ulp is taken from the bit
length of `m`, and a carry out of the rounding lands in the exponent
field, which is where it belongs. -/
def magnitude (l : Layout) (m : Nat) (e : Int) : Nat :=
  if m = 0 then 0
  else
    let length : Nat := m.log2 + 1
    let ulp := max (e + length - (l.fractionBits + 1)) l.leastExponent
    let rounded :=
      if ulp ≤ e then m * twoPow (e - ulp).toNat else roundDiv m (twoPow (ulp - e).toNat)
    min ((ulp - l.leastExponent).toNat * twoPow l.fractionBits + rounded) l.infinity

/-- Write a datum. -/
def pattern (l : Layout) : Datum → Nat
  | .nan => l.quietNan
  | .infinite negative => (if negative then l.signBit else 0) + l.infinity
  | .finite negative m e => (if negative then l.signBit else 0) + l.magnitude m e

end Layout

end Number

end SegmentQuery
