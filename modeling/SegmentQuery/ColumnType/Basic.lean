import SegmentQuery.Cell.Basic
/-!
# Column types

The types that a result column may declare, and the role a column plays.
An `object` column holds an intermediate value of a kind that the column
type does not fix. A null cell of a column is stored as the column's
placeholder, which depends on the role only for numbers.
-/


namespace SegmentQuery

inductive ColumnType
  | int
  | long
  | float
  | double
  | bigDecimal
  | string
  | bytes
  | intArray
  | longArray
  | floatArray
  | doubleArray
  | stringArray
  | object
  deriving DecidableEq, Repr

/-- The role of a column. -/
inductive FieldKind
  | dimension
  | metric
  deriving DecidableEq, Repr

/-- Every role, in declaration order. -/
def FieldKind.all : List FieldKind := [.dimension, .metric]

def FieldKind.name : FieldKind → String
  | .dimension => "dimension"
  | .metric => "metric"

namespace ColumnType

/-- Every column type, in declaration order. -/
def all : List ColumnType :=
  [.int, .long, .float, .double, .bigDecimal, .string, .bytes, .intArray, .longArray, .floatArray,
    .doubleArray, .stringArray, .object]

def name : ColumnType → String
  | .int => "INT"
  | .long => "LONG"
  | .float => "FLOAT"
  | .double => "DOUBLE"
  | .bigDecimal => "BIG_DECIMAL"
  | .string => "STRING"
  | .bytes => "BYTES"
  | .intArray => "INT_ARRAY"
  | .longArray => "LONG_ARRAY"
  | .floatArray => "FLOAT_ARRAY"
  | .doubleArray => "DOUBLE_ARRAY"
  | .stringArray => "STRING_ARRAY"
  | .object => "OBJECT"

/-- The result type of a single-value column. -/
def ofStored : StoredType → ColumnType
  | .int => .int
  | .long => .long
  | .float => .float
  | .double => .double
  | .bigDecimal => .bigDecimal
  | .string => .string
  | .bytes => .bytes

/-- The result type of a multi-value column, for the types that have
array cells. -/
def ofStoredArray? : StoredType → Option ColumnType
  | .int => some .intArray
  | .long => some .longArray
  | .float => some .floatArray
  | .double => some .doubleArray
  | .string => some .stringArray
  | .bigDecimal | .bytes => none

/-- The type of the values, or of an array's elements. -/
def storedType : ColumnType → Option StoredType
  | .int | .intArray => some .int
  | .long | .longArray => some .long
  | .float | .floatArray => some .float
  | .double | .doubleArray => some .double
  | .bigDecimal => some .bigDecimal
  | .string | .stringArray => some .string
  | .bytes => some .bytes
  | .object => none

def isArray : ColumnType → Bool
  | .intArray | .longArray | .floatArray | .doubleArray | .stringArray => true
  | _ => false

/-- What is stored in place of a null: zero for a metric, the least
value for any other number, and something recognizably empty
elsewhere. -/
def placeholder (t : ColumnType) (role : FieldKind) : Cell :=
  match t with
  | .int => .int (if role = .metric then 0 else Int32.minValue)
  | .long => .long (if role = .metric then 0 else Int64.minValue)
  | .float => .float (if role = .metric then Single.zero else Single.negInfinity)
  | .double => .double (if role = .metric then Double.zero else Double.negInfinity)
  | .bigDecimal | .object => .bigDecimal Decimal.zero
  | .string => .string "null"
  | .bytes => .bytes []
  | .intArray => .intArray []
  | .longArray => .longArray []
  | .floatArray => .floatArray []
  | .doubleArray => .doubleArray []
  | .stringArray => .stringArray []

end ColumnType

end SegmentQuery
