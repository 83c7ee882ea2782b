import SegmentQuery.Selection.Order
/-!
# Select lists

A star in a select list stands for every physical column in the order of
their names; columns whose name starts with a dollar sign are hidden
from it.
-/


namespace SegmentQuery

namespace Selection

/-- The item that stands for every column. -/
def star : String := "*"

/-- The columns that a star stands for. -/
def visibleColumns (columns : List String) : List String :=
  (columns.filter fun name => name.toList.head? ≠ some '$').mergeSort fun a b =>
    (Text.compare a b).isLE

/-- The result columns, in select order and with duplicates. -/
def outputColumns (select columns : List String) : List String :=
  select.flatMap fun item => if item = star then visibleColumns columns else [item]

/-- The expressions to fetch: those of the ORDER BY list, then the
selected ones, each once. A zero limit leaves ORDER BY out. -/
def fetchedExpressions (select : List String) (order : List OrderItem) (limit : Nat)
    (columns : List String) : List String :=
  ((if 0 < limit then order.map OrderItem.expression else []) ++ outputColumns select columns).eraseDups

end Selection

end SegmentQuery
