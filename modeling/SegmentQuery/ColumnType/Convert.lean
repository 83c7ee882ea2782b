import SegmentQuery.Error.Basic
/-!
# Conversion to a column's type

Before a cell is shown it is brought to its column's type: whole numbers
widen to longs, doubles and decimals, and arrays widen element by
element. Nothing narrows, and an `object` column takes any cell. Shown
decimals and bytes are texts.
-/


namespace SegmentQuery

namespace ColumnType

/-- Bring a cell to the type of its column; nulls pass. -/
def convert (t : ColumnType) (cell : Cell) : Except QueryError Cell :=
  match t, cell with
  | _, .null => .ok .null
  | .object, c => .ok c
  | .int, .int v => .ok (.int v)
  | .long, .int v => .ok (.long v.toInt64)
  | .long, .long v => .ok (.long v)
  | .float, .float v => .ok (.float v)
  | .double, .int v => .ok (.double (Double.ofInt v.toInt))
  | .double, .long v => .ok (.double (Double.ofInt v.toInt))
  | .double, .float v => .ok (.double v.widen)
  | .double, .double v => .ok (.double v)
  | .bigDecimal, .bigDecimal v => .ok (.bigDecimal v)
  | .bigDecimal, .int v => .ok (.bigDecimal (Decimal.ofInt32 v))
  | .bigDecimal, .long v => .ok (.bigDecimal (Decimal.ofInt64 v))
  | .string, .string v => .ok (.string v)
  | .bytes, .bytes v => .ok (.bytes v)
  | .intArray, .intArray vs => .ok (.intArray vs)
  | .longArray, .intArray vs => .ok (.longArray (vs.map Int32.toInt64))
  | .longArray, .longArray vs => .ok (.longArray vs)
  | .floatArray, .floatArray vs => .ok (.floatArray vs)
  | .doubleArray, .intArray vs => .ok (.doubleArray (vs.map fun v => Double.ofInt v.toInt))
  | .doubleArray, .longArray vs => .ok (.doubleArray (vs.map fun v => Double.ofInt v.toInt))
  | .doubleArray, .floatArray vs => .ok (.doubleArray (vs.map Single.widen))
  | .doubleArray, .doubleArray vs => .ok (.doubleArray vs)
  | .stringArray, .stringArray vs => .ok (.stringArray vs)
  | t, c => .error (.cannotConvert c.kind t)

end ColumnType

namespace Text

/-- The lower-case digit of a number below 16. -/
def hexDigit (n : Nat) : Char :=
  if n < 10 then Char.ofNat ('0'.toNat + n) else Char.ofNat ('a'.toNat + (n - 10))

/-- Two lower-case hexadecimal digits per byte. -/
def hex (bytes : List UInt8) : String :=
  String.ofList (bytes.flatMap fun b => [hexDigit (b.toNat / 16), hexDigit (b.toNat % 16)])

end Text

/-- How a cell is shown: decimals in plain notation, bytes in
hexadecimal, all else as it is. -/
def Cell.display : Cell → Cell
  | .bigDecimal v => .string v.text
  | .bytes v => .string (Text.hex v)
  | c => c

/-- Convert a cell to its column's type and show it. -/
def ColumnType.render (t : ColumnType) (cell : Cell) : Except QueryError Cell :=
  (t.convert cell).map Cell.display

end SegmentQuery
