/-!
# Natural numerals

Limits, counters and exponents are written as an optional plus sign and
at least one ASCII digit, and must stay below a bound given by their
width.
-/


namespace SegmentQuery

namespace Text

/-- The value of an ASCII digit. -/
def digit? (c : Char) : Option Nat :=
  if '0' ≤ c ∧ c ≤ '9' then some (c.toNat - '0'.toNat) else none

/-- The value of a run of digits read after `acc`. -/
def digitsValue? (acc : Nat) : List Char → Option Nat
  | [] => some acc
  | c :: rest => (digit? c).bind fun d => digitsValue? (10 * acc + d) rest

/-- Read a numeral below `bound`. -/
def natural? (bound : Nat) (cs : List Char) : Option Nat :=
  let digits := match cs with
    | '+' :: rest => rest
    | _ => cs
  if digits.isEmpty then none
  else (digitsValue? 0 digits).filter (· < bound)

end Text

end SegmentQuery
