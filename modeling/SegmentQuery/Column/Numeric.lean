import SegmentQuery.Column.Basic
/-!
# Numeric columns

The five stored types that numeric aggregates accept, as a closed set.
`Numeric` is what a fold needs to know of an element: its own order, its
double, and the doubles that stand for the least and the greatest of
nothing.
-/


namespace SegmentQuery

/-- An element of a numeric column. -/
class Numeric (α : Type) where
  le : α → α → Bool
  toDouble : α → Double
  /-- The least of no values. -/
  emptyMin : Double
  /-- The greatest of no values. -/
  emptyMax : Double

instance : Numeric Int32 where
  le a b := decide (a.toInt ≤ b.toInt)
  toDouble a := Double.ofInt a.toInt
  emptyMin := Double.ofInt Int32.maxValue.toInt
  emptyMax := Double.ofInt Int32.minValue.toInt

instance : Numeric Int64 where
  le a b := decide (a.toInt ≤ b.toInt)
  toDouble a := Double.ofInt a.toInt
  emptyMin := Double.ofInt Int64.maxValue.toInt
  emptyMax := Double.ofInt Int64.minValue.toInt

instance : Numeric Single where
  le := Single.le
  toDouble := Single.widen
  emptyMin := Double.infinity
  emptyMax := Double.negInfinity

instance : Numeric Double where
  le := Double.le
  toDouble := id
  emptyMin := Double.infinity
  emptyMax := Double.negInfinity

instance : Numeric Decimal where
  le a b := (a.compare b).isLE
  toDouble := Decimal.toDouble
  emptyMin := Double.infinity
  emptyMax := Double.negInfinity

/-- The values of a single-value numeric column. -/
inductive NumericValues
  | int (vs : List Int32)
  | long (vs : List Int64)
  | float (vs : List Single)
  | double (vs : List Double)
  | bigDecimal (vs : List Decimal)

namespace NumericValues

def length : NumericValues → Nat
  | .int vs => vs.length
  | .long vs => vs.length
  | .float vs => vs.length
  | .double vs => vs.length
  | .bigDecimal vs => vs.length

/-- Every value as a double. -/
def doubles : NumericValues → List Double
  | .int vs => vs.map Numeric.toDouble
  | .long vs => vs.map Numeric.toDouble
  | .float vs => vs.map Numeric.toDouble
  | .double vs => vs
  | .bigDecimal vs => vs.map Numeric.toDouble

end NumericValues

namespace Column

/-- The column as numbers; multi-value columns, texts and bytes are
refused. -/
def numeric (c : Column) : Except QueryError NumericValues :=
  match c.values with
  | .single .int vs => .ok (.int vs)
  | .single .long vs => .ok (.long vs)
  | .single .float vs => .ok (.float vs)
  | .single .double vs => .ok (.double vs)
  | .single .bigDecimal vs => .ok (.bigDecimal vs)
  | other => .error (.unsupportedType .numericAggregation other.type other.isSingleValue)

/-- The column's values as doubles. -/
def doubles (c : Column) : Except QueryError (List Double) := c.numeric.map NumericValues.doubles

end Column

end SegmentQuery
