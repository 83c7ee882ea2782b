import SegmentQuery.Cell.Order
import SegmentQuery.Error.Basic
/-!
# The order of rows

Rows are compared column by column over a list of keys, each a column
number and a direction. A missing cell counts as null, nulls go last in
either direction, and cells that tie leave the decision to the next key.
Arrays cannot be ordered: `validate` refuses a row that holds one where
a key looks.
-/


namespace SegmentQuery

/-- One item of an ORDER BY list. -/
structure OrderItem where
  expression : String
  direction : Direction
  deriving DecidableEq, Repr

/-- The keys of a row order, most significant first. -/
structure RowOrder where
  keys : List (Nat × Direction)
  deriving DecidableEq, Repr

namespace RowOrder

/-- Keys over the leading columns, one per direction. -/
def leading (directions : List Direction) : RowOrder :=
  ⟨directions.zipIdx.map fun (direction, index) => (index, direction)⟩

/-- The cell a key compares. -/
def cellAt (row : Row) (index : Nat) : Cell := row[index]?.getD .null

def compareBy (left right : Row) : List (Nat × Direction) → Ordering
  | [] => .eq
  | (index, direction) :: rest =>
    (Cell.compareNullsLast direction (cellAt left index) (cellAt right index)).then
      (compareBy left right rest)

/-- The order of two rows: `lt` means `left` sorts first. -/
def compare (order : RowOrder) (left right : Row) : Ordering := compareBy left right order.keys

def validateBy (row : Row) : List (Nat × Direction) → Except QueryError Unit
  | [] => .ok ()
  | (index, _) :: rest =>
    let cell := cellAt row index
    if cell.isMultiValue then .error (.multiValueOrder index cell.kind) else validateBy row rest

/-- Refuse a row with an array where a key looks. -/
def validate (order : RowOrder) (row : Row) : Except QueryError Unit := validateBy row order.keys

/-- Sort rows, ties in their given order. -/
def sort (order : RowOrder) (rows : List Row) : List Row :=
  rows.mergeSort fun a b => (order.compare a b).isLE

end RowOrder

end SegmentQuery
