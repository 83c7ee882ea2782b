import SegmentQuery.Decimal.Reading
/-!
# Accumulators

The running value of one aggregate, for a whole scan or for one group.
A scan's holder also remembers whether a value that is not null has
reached it; a group's slot has three states, because a null may settle a
group for good.
-/


namespace SegmentQuery

/-- A running value. -/
inductive Accumulator
  | double (v : Double)
  | long (v : Int64)
  | decimal (v : Decimal)
  deriving DecidableEq

namespace Accumulator

def toDouble : Accumulator → Double
  | .double v => v
  | .long v => Double.ofInt v.toInt
  | .decimal v => v.toDouble

/-- The whole part; 0 for a decimal beyond 64 bits. -/
def toLong : Accumulator → Int64
  | .double v => v.toInt64
  | .long v => v
  | .decimal v => v.toInt64?.getD 0

/-- The decimal of the same digits; 0 for a double that has none. -/
def toDecimal : Accumulator → Decimal
  | .double v => match Decimal.ofDouble v with
    | .ok d => d
    | .error _ => Decimal.zero
  | .long v => Decimal.ofInt64 v
  | .decimal v => v

end Accumulator

/-- The accumulator of one aggregate over a whole scan. -/
structure Holder where
  value : Accumulator
  seenNonNull : Bool := false
  deriving DecidableEq

/-- What has happened to a group so far. -/
inductive GroupState
  | noData
  | null
  | valued
  deriving DecidableEq, Repr

def GroupState.name : GroupState → String
  | .noData => "no_data"
  | .null => "null"
  | .valued => "valued"

/-- The accumulator of one group. -/
structure GroupSlot where
  state : GroupState
  value : Accumulator
  deriving DecidableEq

namespace GroupSlot

/-- A slot that nothing has reached. -/
def fresh (initial : Accumulator) : GroupSlot := ⟨.noData, initial⟩

/-- Note a value: a group without data becomes valued, a null one stays
null. -/
def observe (s : GroupSlot) : GroupSlot :=
  if s.state = .noData then { s with state := .valued } else s

def markNull (s : GroupSlot) : GroupSlot := { s with state := .null }

def isNull (s : GroupSlot) : Bool := s.state == .null

end GroupSlot

end SegmentQuery
