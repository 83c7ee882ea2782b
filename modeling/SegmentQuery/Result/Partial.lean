import SegmentQuery.Distinct.Values
import SegmentQuery.Error.Exception
import SegmentQuery.Result.GroupTable
import SegmentQuery.Result.Schema
import SegmentQuery.Result.Stats
import SegmentQuery.Selection.OrderedRows
/-!
# Partial results

What one segment, or one merge of segments, yields: rows in a form that
can still be merged, the schema they follow, statistics, and the
failures met on the way. Empty rows are those of a result that only
reports failures.
-/


namespace SegmentQuery

/-- Rows that can still be merged. -/
inductive ResultRows
  | empty
  | selection (rows : List Row)
  | orderedSelection (rows : OrderedRows)
  | aggregation (row : Row)
  | groupBy (groups : GroupTable)
  | distinct (values : DistinctValues)

namespace ResultRows

def kind : ResultRows → RowsKind
  | .empty => .empty
  | .selection _ => .selection
  | .orderedSelection _ => .orderedSelection
  | .aggregation _ => .aggregation
  | .groupBy _ => .groupBy
  | .distinct _ => .distinct

def size : ResultRows → Nat
  | .empty => 0
  | .selection rows => rows.length
  | .orderedSelection rows => rows.size
  | .aggregation _ => 1
  | .groupBy groups => groups.size
  | .distinct values => values.size

/-- The rows themselves; ordered ones from first to last. -/
def rows : ResultRows → List Row
  | .empty => []
  | .selection rows => rows
  | .orderedSelection rows => rows.sorted
  | .aggregation row => [row]
  | .groupBy groups => groups.rows
  | .distinct values => values.rows

end ResultRows

structure PartialResult where
  schema : Schema
  rows : ResultRows
  stats : ExecutionStats
  exceptions : List ProcessingException

namespace PartialResult

/-- A result with nothing in it. -/
def empty : PartialResult := ⟨.empty, .empty, {}, []⟩

def ofException (x : ProcessingException) : PartialResult := { empty with exceptions := [x] }

def addExceptions (r : PartialResult) (xs : List ProcessingException) : PartialResult :=
  { r with exceptions := r.exceptions ++ xs }

end PartialResult

end SegmentQuery
