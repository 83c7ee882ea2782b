import SegmentQuery.Operator.Scan
import SegmentQuery.Options.Basic
/-!
# Distinct values over one segment

A scan of one column into a collection of distinct values. It stops at
the block that saturates the collection; that block counts whole.
-/


namespace SegmentQuery

namespace Distinct

/-- Take in a block's column. -/
def step (values : DistinctValues) (block : Block) : Except QueryError (Visit DistinctValues) := do
  let column ← block.column 0
  let values ← (values.process column block.size).toExcept
  return { state := values, documents := block.size, finished := values.isSaturated }

/-- The distinct values of one column. -/
def run (segment : Segment) (column : String) (order : Option Direction) (options : Options) :
    Traced (Except QueryError PartialResult) :=
  let prepared : Except QueryError (Schema × DistinctValues) := do
    let metadata ← segment.metadata column
    let type ← metadata.columnType
    let values ← DistinctValues.forColumn metadata.type metadata.singleValue order options.rowsToKeep
      options.nullHandling
    return (⟨[⟨column, type, metadata.role⟩]⟩, values)
  match prepared with
  | .error e => .silent (.error e)
  | .ok (schema, values) =>
    (scanWith .distinct (segment.scan [column] options.nullHandling) (quietly step) values).map
      fun outcome => outcome.map fun scanned =>
        ⟨schema, .distinct scanned.state, scanned.stats segment.totalDocs, []⟩

end Distinct

end SegmentQuery
