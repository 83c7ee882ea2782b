import SegmentQuery.Aggregate.Merge
import SegmentQuery.Operator.Scan
import SegmentQuery.Options.Basic
/-!
# Aggregation over one segment

Every function folds every block into its own holder; a column that
several functions read is fetched once.
-/


namespace SegmentQuery

namespace Aggregation

/-- The columns to fetch: `leading` as it is, then what the functions
read and `leading` lacks, each once. -/
def fetchedColumns (leading : List String) (functions : List AggregateFunction) : List String :=
  functions.foldl
    (fun columns f => match f.column? with
      | some c => if columns.contains c then columns else columns ++ [c]
      | none => columns)
    leading

/-- The place of a function's column among the fetched ones. -/
def inputIndex (columns : List String) (f : AggregateFunction) : Option Nat :=
  f.column?.bind fun c => columns.findIdx? (· == c)

/-- The result columns of intermediate values. -/
def intermediateColumns (functions : List AggregateFunction) : List ResultColumn :=
  functions.map fun f => ⟨f.resultColumn, f.intermediateType, .metric⟩

/-- The column of a block at an index, if one is asked for. -/
def input (block : Block) : Option Nat → Except QueryError (Option Column)
  | none => .ok none
  | some index => (block.column index).map some

/-- Fold a block into the holders, function by function. -/
def step (columns : List String) (functions : List AggregateFunction) (holders : List Holder)
    (block : Block) : Except QueryError (Visit (List Holder)) := do
  let holders ← (functions.zip holders).mapM fun (f, h) => do
    let column ← input block (inputIndex columns f)
    (f.aggregate block.size column h).toExcept
  return { state := holders, documents := block.size }

/-- The aggregates of a segment's matching documents. -/
def run (segment : Segment) (functions : List AggregateFunction) (options : Options) :
    Traced (Except QueryError PartialResult) :=
  let columns := fetchedColumns [] functions
  (scanWith .aggregation (segment.scan columns options.nullHandling)
    (quietly (step columns functions)) (functions.map AggregateFunction.holder)).map fun outcome =>
      outcome.map fun scanned =>
        let row := (functions.zip scanned.state).map fun (f, h) => f.extract h
        ⟨⟨intermediateColumns functions⟩, .aggregation row, scanned.stats segment.totalDocs, []⟩

end Aggregation

end SegmentQuery
