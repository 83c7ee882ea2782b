import SegmentQuery.Operator.Aggregation
import SegmentQuery.Operator.Distinct
import SegmentQuery.Operator.GroupBy
import SegmentQuery.Operator.Selection
import SegmentQuery.Result.Combine
/-!
# Queries

The shape of one query, which operator answers it for one segment, and
the combined answer for several.
-/


namespace SegmentQuery

inductive QueryKind
  | selection
  | aggregation
  | groupBy
  | distinct
  deriving DecidableEq, Repr

namespace QueryKind

def all : List QueryKind := [.selection, .aggregation, .groupBy, .distinct]

def name : QueryKind → String
  | .selection => "selection"
  | .aggregation => "aggregation"
  | .groupBy => "group_by"
  | .distinct => "distinct"

end QueryKind

/-- A query. The lists that its kind has no use for are ignored. -/
structure Query where
  kind : QueryKind
  select : List String := []
  orderBy : List OrderItem := []
  groupBy : List String := []
  functions : List AggregateFunction := []
  options : Options := {}

namespace Query

/-- The direction of a distinct query's order. Its ORDER BY list may
name the distinct column, and nothing else. -/
def distinctOrder (q : Query) : Except QueryError (Option Direction) :=
  match q.orderBy, q.select with
  | [], _ => .ok none
  | [item], column :: _ =>
    if item.expression = column then .ok (some item.direction) else .error .distinctOrder
  | _, _ => .error .distinctOrder

/-- The distinct column and its order. -/
def distinctColumn (q : Query) : Except QueryError (String × Option Direction) :=
  match q.select with
  | [] => .error .distinctWithoutColumn
  | column :: _ => q.distinctOrder.map fun order => (column, order)

/-- Run the query over one segment. A selection with nothing to order,
or nothing to return, needs no order. -/
def runOver (q : Query) (segment : Segment) : Traced (Except QueryError PartialResult) :=
  match q.kind with
  | .selection =>
    if q.orderBy.isEmpty || q.options.limit == 0 then
      Selection.runUnordered segment q.select q.options
    else (Selection.Plan.make segment q.select q.orderBy q.options).run
  | .aggregation => Aggregation.run segment q.functions q.options
  | .groupBy => GroupBy.run segment q.groupBy q.functions q.options
  | .distinct =>
    match q.distinctColumn with
    | .error e => .silent (.error e)
    | .ok (column, order) => Distinct.run segment column order q.options

/-- Run the query over one segment, with room asked for where it groups. The
room that other operators reserve for rows is taken to be there. -/
def attemptOver (q : Query) (segment : Segment) : Traced (Except QueryError PartialResult) :=
  if q.kind = .groupBy then GroupBy.attempt segment q.groupBy q.functions q.options
  else q.runOver segment

def combiner (q : Query) : Combiner where
  functions := q.functions
  rowsToKeep := q.options.rowsToKeep
  groupsLimit := q.options.numGroupsLimit

/-- Run the query over every segment and combine. A segment that fails
becomes an exception on the result. -/
def run (q : Query) (segments : List Segment) : Traced PartialResult :=
  let outcomes := Traced.sequence (segments.map q.runOver)
  let combined := q.combiner.combine outcomes.value
  ⟨combined.value, outcomes.events ++ combined.events⟩

end Query

end SegmentQuery
