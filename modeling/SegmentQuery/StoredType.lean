import SegmentQuery.Decimal.Basic
/-!
# Stored types

The physical types a column may have. `StoredType.Element` is the type of
one stored value, so a column of type `t` is a list of `t.Element` and no
layout can hold values of another type.
-/


namespace SegmentQuery

/-- How a column's values are stored. -/
inductive StoredType
  | int
  | long
  | float
  | double
  | bigDecimal
  | string
  | bytes
  deriving DecidableEq, Repr

/-- The kernels a stored type is routed to. -/
inductive StoredFamily
  | numeric
  | textual
  | binary
  deriving DecidableEq, Repr

namespace StoredType

/-- Every stored type, in registry order. -/
def all : List StoredType := [.int, .long, .float, .double, .bigDecimal, .string, .bytes]

def name : StoredType → String
  | .int => "INT"
  | .long => "LONG"
  | .float => "FLOAT"
  | .double => "DOUBLE"
  | .bigDecimal => "BIG_DECIMAL"
  | .string => "STRING"
  | .bytes => "BYTES"

def family : StoredType → StoredFamily
  | .string => .textual
  | .bytes => .binary
  | _ => .numeric

/-- Whether numeric aggregates accept the type. -/
def isNumeric (t : StoredType) : Bool := t.family == .numeric

/-- Whether a column may hold an array of this type per document. -/
def supportsMultiValue : StoredType → Bool
  | .bigDecimal | .bytes => false
  | _ => true

/-- One stored value. -/
abbrev Element : StoredType → Type
  | .int => Int32
  | .long => Int64
  | .float => Single
  | .double => Double
  | .bigDecimal => Decimal
  | .string => String
  | .bytes => List UInt8

end StoredType

def StoredFamily.name : StoredFamily → String
  | .numeric => "numeric"
  | .textual => "textual"
  | .binary => "binary"

end SegmentQuery
