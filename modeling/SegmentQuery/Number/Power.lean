/-!
# Powers

Powers of two size the fields of bit patterns, powers of ten move
decimal points, and a few of the former are bounds of fixed-width
integers.
-/


namespace SegmentQuery

namespace Number

/-- Two to the power of `n`. -/
def twoPow (n : Nat) : Nat := Nat.pow 2 n

/-- Ten to the power of `n`. -/
def tenPow (n : Nat) : Nat := Nat.pow 10 n

/-- Two to the power of 32, one more than the greatest 32 bit number. -/
def bound32 : Nat := 4294967296

/-- Two to the power of 64, one more than the greatest 64 bit number. -/
def bound64 : Nat := 18446744073709551616

/-- The most bytes that one allocation may have: as many as a signed 64 bit
number counts. -/
def maxAllocation : Nat := 9223372036854775807

end Number

end SegmentQuery
