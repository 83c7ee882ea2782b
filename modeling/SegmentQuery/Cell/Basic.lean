import SegmentQuery.StoredType
import SegmentQuery.Cell.Kind
/-!
# Cells

A cell is one value of a row. `null` stands for a value that is not
there; it appears only where null handling is on and the document's
position is in its column's null set. Arrays are the values of
multi-value columns.
-/


namespace SegmentQuery

/-- One value of a row. -/
inductive Cell
  | null
  | int (v : Int32)
  | long (v : Int64)
  | float (v : Single)
  | double (v : Double)
  | bigDecimal (v : Decimal)
  | string (v : String)
  | bytes (v : List UInt8)
  | intArray (vs : List Int32)
  | longArray (vs : List Int64)
  | floatArray (vs : List Single)
  | doubleArray (vs : List Double)
  | stringArray (vs : List String)
  deriving DecidableEq, Inhabited

/-- Cells in the order of the schema that produced them. -/
abbrev Row := List Cell

/-- The order of strings is that of their code points. -/
def Text.compare (a b : String) : Ordering :=
  List.compareLex (fun x y => Ord.compare x.toNat y.toNat) a.toList b.toList

namespace Cell

def kind : Cell → CellKind
  | .null => .null
  | .int _ => .int
  | .long _ => .long
  | .float _ => .float
  | .double _ => .double
  | .bigDecimal _ => .bigDecimal
  | .string _ => .string
  | .bytes _ => .bytes
  | .intArray _ => .intArray
  | .longArray _ => .longArray
  | .floatArray _ => .floatArray
  | .doubleArray _ => .doubleArray
  | .stringArray _ => .stringArray

def isNull : Cell → Bool
  | .null => true
  | _ => false

def isMultiValue : Cell → Bool
  | .intArray _ | .longArray _ | .floatArray _ | .doubleArray _ | .stringArray _ => true
  | _ => false

/-- The type of the value, or of an array's elements. -/
def storedType : Cell → Option StoredType
  | .null => none
  | .int _ | .intArray _ => some .int
  | .long _ | .longArray _ => some .long
  | .float _ | .floatArray _ => some .float
  | .double _ | .doubleArray _ => some .double
  | .bigDecimal _ => some .bigDecimal
  | .string _ | .stringArray _ => some .string
  | .bytes _ => some .bytes

/-! ## Views of one value -/

/-- A number as a double. -/
def toDouble? : Cell → Option Double
  | .int v => some (Double.ofInt v.toInt)
  | .long v => some (Double.ofInt v.toInt)
  | .float v => some v.widen
  | .double v => some v
  | .bigDecimal v => some v.toDouble
  | _ => none

/-- A whole number as a 64 bit integer. -/
def toLong? : Cell → Option Int64
  | .int v => some v.toInt64
  | .long v => some v
  | _ => none

def toDecimal? : Cell → Option Decimal
  | .bigDecimal v => some v
  | _ => none

def toText? : Cell → Option String
  | .string v => some v
  | _ => none

/-! ## Equality -/

/-- Equality of values: floats numerically, so a NaN equals nothing and
the zeros are equal, and decimals blind to scale. -/
def same : Cell → Cell → Bool
  | .null, .null => true
  | .int a, .int b => a == b
  | .long a, .long b => a == b
  | .float a, .float b => a.numEq b
  | .double a, .double b => a.numEq b
  | .bigDecimal a, .bigDecimal b => a.compare b == .eq
  | .string a, .string b => a == b
  | .bytes a, .bytes b => a == b
  | .intArray a, .intArray b => a == b
  | .longArray a, .longArray b => a == b
  | .floatArray a, .floatArray b => a.length == b.length && (a.zip b).all fun p => p.1.numEq p.2
  | .doubleArray a, .doubleArray b => a.length == b.length && (a.zip b).all fun p => p.1.numEq p.2
  | .stringArray a, .stringArray b => a == b
  | _, _ => false

end Cell

namespace StoredType

/-- A stored value as a cell. -/
def cell : (t : StoredType) → t.Element → Cell
  | .int, v => .int v
  | .long, v => .long v
  | .float, v => .float v
  | .double, v => .double v
  | .bigDecimal, v => .bigDecimal v
  | .string, v => .string v
  | .bytes, v => .bytes v

/-- An array of stored values as a cell, for the types that have array
cells. -/
def arrayCell? : (t : StoredType) → Option (List t.Element → Cell)
  | .int => some .intArray
  | .long => some .longArray
  | .float => some .floatArray
  | .double => some .doubleArray
  | .string => some .stringArray
  | .bigDecimal | .bytes => none

end StoredType

end SegmentQuery
