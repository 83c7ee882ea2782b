import SegmentQuery.Number.Double
/-!
# Shortest decimal digits

A finite nonzero double owns an interval of reals that round to it, its
ends included exactly when its significand is even. `Shortest.find`
walks the decimal grids `10 ^ k` from the coarsest down and takes the
first one with a point in that interval; of two such points on one grid
the nearer wins, and of two equally near ones the larger. All arithmetic
is on natural numbers, over a common denominator.
-/


namespace SegmentQuery

namespace Number

/-- A decimal numeral `digits · 10 ^ exponent`. -/
structure DecimalDigits where
  digits : Nat
  exponent : Int
  deriving DecidableEq, Repr

/-- The reals between `low / den` and `high / den` around
`value / den`. -/
structure Shortest.Interval where
  low : Nat
  value : Nat
  high : Nat
  den : Nat
  closed : Bool

namespace Shortest

/-- The interval of `m · 2 ^ e`. Below a power of two the next double is
half as far away, unless it is already among the least ones. -/
def interval (l : Layout) (m : Nat) (e : Int) : Interval :=
  let below := if m = twoPow l.fractionBits ∧ l.leastExponent < e then 1 else 2
  let scale : Nat := if 2 ≤ e then twoPow (e - 2).toNat else 1
  { low := (4 * m - below) * scale
    value := 4 * m * scale
    high := (4 * m + 2) * scale
    den := if 2 ≤ e then 1 else twoPow (2 - e).toNat
    closed := decide (m % 2 = 0) }

/-- Whether `num / i.den` lies in the interval. -/
def Interval.holds (i : Interval) (num : Nat) : Bool :=
  if i.closed then decide (i.low ≤ num) && decide (num ≤ i.high)
  else decide (i.low < num) && decide (num < i.high)

/-- The interval times `10 ^ -k`, so that grid points become whole
numbers. -/
def Interval.onGrid (i : Interval) (k : Int) : Interval :=
  if 0 ≤ k then { i with den := i.den * tenPow k.toNat }
  else
    let f := tenPow (-k).toNat
    { i with low := i.low * f, value := i.value * f, high := i.high * f }

/-- The point of the whole-number grid that the interval holds, the
nearer one when it holds both neighbours of the value, and the larger
one when they are equally near. -/
def Interval.point? (i : Interval) : Option Nat :=
  let floor := i.value / i.den
  let lower := i.holds (floor * i.den)
  let upper := i.holds ((floor + 1) * i.den)
  if lower && upper then
    if i.value - floor * i.den < (floor + 1) * i.den - i.value then some floor else some (floor + 1)
  else if lower then some floor
  else if upper then some (floor + 1)
  else none

/-- The first grid, from `10 ^ k` down, that has a point in the
interval. -/
def find (i : Interval) (k : Int) : Nat → Option DecimalDigits
  | 0 => none
  | steps + 1 =>
    match (i.onGrid k).point? with
    | some digits => some ⟨digits, k⟩
    | none => find i (k - 1) steps

/-- The shortest numeral that reads back as `m · 2 ^ e`. The walk starts
above the leading digit; the exact expansion of a double ends within
1100 places after the point, so it always meets a grid. -/
def digits (m : Nat) (e : Int) : DecimalDigits :=
  let i := interval Layout.double m e
  let start := (Nat.toDigits 10 (i.value / i.den)).length
  (find i start (start + 1100)).getD ⟨0, 0⟩

end Shortest

/-- Digits in plain notation with a point before the last `places` of
them, and no point when there are none. -/
def plainText (negative : Bool) (digits places : Nat) : String :=
  let shown := Nat.toDigits 10 digits
  let padded := List.replicate (places + 1 - shown.length) '0' ++ shown
  let whole := padded.take (padded.length - places)
  let fraction := padded.drop (padded.length - places)
  String.ofList ((if negative then ['-'] else []) ++ whole
    ++ (if places = 0 then [] else '.' :: fraction))

end Number

/-- The shortest text that reads back as the double, without an
exponent: `1`, `-0`, `0.001`. -/
def Double.text (x : Double) : String :=
  match x.datum with
  | .nan => "NaN"
  | .infinite negative => if negative then "-inf" else "inf"
  | .finite negative m e =>
    if m = 0 then (if negative then "-0" else "0")
    else
      let d := Number.Shortest.digits m e
      if 0 ≤ d.exponent then Number.plainText negative (d.digits * Number.tenPow d.exponent.toNat) 0
      else Number.plainText negative d.digits (-d.exponent).toNat

end SegmentQuery
