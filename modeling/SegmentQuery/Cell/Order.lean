import SegmentQuery.Cell.Basic
import SegmentQuery.Direction
/-!
# The order of cells

Cells of one kind are compared by value, floats by the order of all
their patterns and arrays element by element; cells of different kinds
by a fixed rank. A null ranks after everything. `compareNullsLast` is
what ORDER BY uses: the direction turns the comparison of two values but
never lifts a null above a value.
-/


namespace SegmentQuery

namespace Cell

/-- The place of a kind among the kinds. -/
def rank : Cell → Nat
  | .int _ => 0
  | .long _ => 1
  | .float _ => 2
  | .double _ => 3
  | .bigDecimal _ => 4
  | .string _ => 5
  | .bytes _ => 6
  | .intArray _ => 7
  | .longArray _ => 8
  | .floatArray _ => 9
  | .doubleArray _ => 10
  | .stringArray _ => 11
  | .null => 255

def compareBytes : List UInt8 → List UInt8 → Ordering :=
  List.compareLex fun x y => Ord.compare x.toNat y.toNat

def compareInt32 (x y : Int32) : Ordering := Ord.compare x.toInt y.toInt

def compareInt64 (x y : Int64) : Ordering := Ord.compare x.toInt y.toInt

/-- The total order of cells. -/
def compare (left right : Cell) : Ordering :=
  match left, right with
  | .int a, .int b => compareInt32 a b
  | .long a, .long b => compareInt64 a b
  | .float a, .float b => a.compareTotal b
  | .double a, .double b => a.compareTotal b
  | .bigDecimal a, .bigDecimal b => a.compare b
  | .string a, .string b => Text.compare a b
  | .bytes a, .bytes b => compareBytes a b
  | .intArray a, .intArray b => List.compareLex compareInt32 a b
  | .longArray a, .longArray b => List.compareLex compareInt64 a b
  | .floatArray a, .floatArray b => List.compareLex Single.compareTotal a b
  | .doubleArray a, .doubleArray b => List.compareLex Double.compareTotal a b
  | .stringArray a, .stringArray b => List.compareLex Text.compare a b
  | a, b => Ord.compare a.rank b.rank

/-- The order of one ORDER BY column: `lt` means `left` sorts first. -/
def compareNullsLast (direction : Direction) (left right : Cell) : Ordering :=
  match left.isNull, right.isNull with
  | true, true => .eq
  | true, false => .gt
  | false, true => .lt
  | false, false => direction.apply (left.compare right)

/-- Sort cells as one ORDER BY column would, ties in their given
order. -/
def sort (direction : Direction) (cells : List Cell) : List Cell :=
  cells.mergeSort fun a b => (compareNullsLast direction a b).isLE

end Cell

end SegmentQuery
