/-!
# Cell kinds

The names of the shapes a cell may have, as diagnostics show them.
-/


namespace SegmentQuery

inductive CellKind
  | null
  | int
  | long
  | float
  | double
  | bigDecimal
  | string
  | bytes
  | intArray
  | longArray
  | floatArray
  | doubleArray
  | stringArray
  deriving DecidableEq, Repr

def CellKind.name : CellKind → String
  | .null => "null"
  | .int => "int"
  | .long => "long"
  | .float => "float"
  | .double => "double"
  | .bigDecimal => "big_decimal"
  | .string => "string"
  | .bytes => "bytes"
  | .intArray => "int_array"
  | .longArray => "long_array"
  | .floatArray => "float_array"
  | .doubleArray => "double_array"
  | .stringArray => "string_array"

end SegmentQuery
