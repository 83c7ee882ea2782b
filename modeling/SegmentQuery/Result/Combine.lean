import SegmentQuery.Aggregate.Merge
import SegmentQuery.Metrics
import SegmentQuery.Result.Partial
/-!
# Combining partial results

The partial results of several segments become one. The first one that
is there is the target, and the others are merged into it in order. A
segment that failed and a merge that failed leave an exception on the
result; what a merge changed before it failed stays changed.
-/


namespace SegmentQuery

/-- What combining depends on: the functions whose values are merged,
and how many rows and groups a result may hold. -/
structure Combiner where
  functions : List AggregateFunction
  rowsToKeep : Nat
  groupsLimit : Nat

namespace Combiner

/-! ## Rows -/

/-- Append rows until `limit` are there. -/
def appendRows (limit : Nat) (target other : List Row) : List Row :=
  target ++ other.take (limit - target.length)

/-- Merge values slot by slot, up to the first that cannot be merged. -/
def mergeSlots : List AggregateFunction → Row → Row → Progress QueryError Row
  | f :: functions, left :: target, right :: other =>
    match f.merge left right with
    | .ok value => (mergeSlots functions target other).map (value :: ·)
    | .error e => .stopped (left :: target) e
  | _, target, _ => .done target

/-- Merge rows of aggregates, which must have one value per function. -/
def mergeAggregates (c : Combiner) (target other : Row) : Progress QueryError Row :=
  if target.length = c.functions.length ∧ other.length = c.functions.length then
    mergeSlots c.functions target other
  else .stopped target (.aggregateWidths target.length other.length c.functions.length)

/-- Merge one group, and tell whether a group has been dropped so far. A
new group is dropped once the limit is reached. -/
def mergeGroup (c : Combiner) (state : GroupTable × Bool) (group : List Key × Row) :
    Progress QueryError (GroupTable × Bool) :=
  let (table, dropped) := state
  let (tuple, aggregates) := group
  match table.find? tuple with
  | some existing =>
    (c.mergeAggregates existing aggregates).map fun row => (table.insert tuple row, dropped)
  | none =>
    if table.size < c.groupsLimit then .done (table.insert tuple aggregates, dropped)
    else .done (table, true)

/-- Merge group tables, and tell whether a group was dropped. -/
def mergeGroups (c : Combiner) (target other : GroupTable) :
    Progress QueryError (GroupTable × Bool) :=
  Progress.foldl c.mergeGroup (target, false) other.groups

/-- Merge rows of one kind, and tell whether a group was dropped. -/
def mergeRows (c : Combiner) (target other : ResultRows) : Progress QueryError (ResultRows × Bool) :=
  match target, other with
  | target, .empty => .done (target, false)
  | .selection a, .selection b => .done (.selection (appendRows c.rowsToKeep a b), false)
  | .orderedSelection a, .orderedSelection b =>
    (a.merge b).map fun rows => (.orderedSelection rows, false)
  | .aggregation a, .aggregation b =>
    (c.mergeAggregates a b).map fun row => (.aggregation row, false)
  | .groupBy a, .groupBy b =>
    (c.mergeGroups a b).map fun (table, dropped) => (.groupBy table, dropped)
  | .distinct a, .distinct b =>
    (Progress.ofExcept a (a.merge b)).map fun values => (.distinct values, false)
  | target, other => .stopped (target, false) (.mergeRows other.kind target.kind)

/-! ## Results -/

/-- Merge a partial result into another. Statistics and exceptions are
merged first and stay merged whatever becomes of the rows. A target
without rows of its own adopts the other's schema and rows. -/
def mergeInto (c : Combiner) (target other : PartialResult) : Progress QueryError PartialResult :=
  let base : PartialResult :=
    { target with
      stats := target.stats.merge other.stats
      exceptions := target.exceptions ++ other.exceptions }
  match target.rows with
  | .empty => .done { base with schema := other.schema, rows := other.rows }
  | rows =>
    let merged := c.mergeRows rows other.rows
    let limitReached := merged.error.isNone && merged.state.2
    merged.map fun (rows, _) =>
      { base with
        rows := rows
        stats :=
          { base.stats with
            groupsLimitReached := base.stats.groupsLimitReached || limitReached } }

/-- What has been combined so far, and the exceptions to add at the
end. -/
structure Combining where
  result : Option PartialResult := none
  exceptions : List ProcessingException := []

/-- The exception that an error becomes. -/
def exceptionOf (e : QueryError) : ProcessingException := .ofError .queryExecution e

/-- Take in the outcome of one more segment. -/
def step (c : Combiner) (state : Combining) (outcome : Except QueryError PartialResult) :
    Combining :=
  match outcome, state.result with
  | .error e, _ => { state with exceptions := state.exceptions ++ [exceptionOf e] }
  | .ok other, none => { state with result := some other }
  | .ok other, some target =>
    let merged := c.mergeInto target other
    { result := some merged.state
      exceptions := state.exceptions ++ (merged.error.map exceptionOf).toList }

/-- Combine the outcomes of segments, in order. -/
def combine (c : Combiner) (outcomes : List (Except QueryError PartialResult)) :
    Traced PartialResult :=
  let state := outcomes.foldl c.step {}
  let result := (state.result.getD .empty).addExceptions state.exceptions
  ⟨result, [.mergeFinish outcomes.length result.exceptions.length]⟩

end Combiner

end SegmentQuery
