import SegmentQuery.Number.Power
/-!
# Saturating counters

Counters and limits are 64 bits wide. Adding to a counter stops at the
greatest value instead of wrapping.
-/


namespace SegmentQuery

namespace Counter

/-- The greatest 64 bit counter. -/
def max64 : Nat := Number.bound64 - 1

/-- `a + b`, or the greatest counter when that is less. -/
def add (a b : Nat) : Nat := min (a + b) max64

/-- The sum of two signed counts, clamped to 64 bits at both ends. -/
def addSigned (a b : Int64) : Int64 :=
  let sum := a.toInt + b.toInt
  if sum < Int64.minValue.toInt then Int64.minValue
  else if Int64.maxValue.toInt < sum then Int64.maxValue
  else Int64.ofInt sum

/-- A natural number as a signed count, clamped. -/
def signed (n : Nat) : Int64 :=
  if Int64.maxValue.toInt < n then Int64.maxValue else Int64.ofInt n

end Counter

end SegmentQuery
