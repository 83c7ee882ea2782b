import SegmentQuery.Cell.Order
/-!
# Keys

Groups and distinct values are told apart by keys. A key is a cell whose
decimals are normalized, and two keys are the same when they compare
equal: the zeros are one value, all NaNs are one value above every
number, and a decimal's scale does not count. A null is one more value,
after all others.
-/


namespace SegmentQuery

/-- A cell as a member of a group tuple or of a distinct set. -/
structure Key where
  cell : Cell
  deriving DecidableEq

/-- The key of a cell. -/
def Cell.key : Cell → Key
  | .bigDecimal v => ⟨.bigDecimal v.normalize⟩
  | c => ⟨c⟩

namespace Key

/-- The total order of keys: by kind first, null last, then by value. -/
def compare (left right : Key) : Ordering :=
  match left.cell, right.cell with
  | .float a, .float b => a.compareRanked b
  | .double a, .double b => a.compareRanked b
  | .floatArray a, .floatArray b => List.compareLex Single.compareRanked a b
  | .doubleArray a, .doubleArray b => List.compareLex Double.compareRanked a b
  | a, b => a.compare b

/-- Whether two keys stand for one value. -/
def same (left right : Key) : Bool := left.compare right == .eq

/-- The order of tuples of keys: by the first key that differs. -/
def compareTuples : List Key → List Key → Ordering := List.compareLex compare

def sameTuple (left right : List Key) : Bool := compareTuples left right == .eq

end Key

end SegmentQuery
