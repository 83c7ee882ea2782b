import SegmentQuery.Broker.Render
import SegmentQuery.Query
import SegmentQuery.Result.Table
/-!
# The broker's answer

The broker reduces the servers' tables to the final answer. Every
query kind has its own reduction: ordered rows go through one more
bounded heap, aggregates and groups are merged and made final, distinct
values are collected once more. Tables without columns carry only
statistics and exceptions. A reduction that fails leaves an exception on
the response and no table.
-/


namespace SegmentQuery

/-- The answer to a query. -/
structure Response where
  table : Option ResultTable
  stats : ExecutionStats
  exceptions : List ProcessingException

def Response.rowCount (r : Response) : Nat := (r.table.map (·.rows.length)).getD 0

namespace Broker

/-- The rows of all tables, in table order. -/
def allRows (tables : List DataTable) : List Row := tables.flatMap DataTable.allRows

/-! ## Selections -/

/-- The first `offset + limit` rows without the first `offset`. -/
def selectedRows (q : Query) (tables : List DataTable) : List Row :=
  ((allRows tables).take q.options.rowsToKeep).drop q.options.offset

/-- The row order that an ORDER BY list makes over a schema. Unknown and
array columns take no part. -/
def selectionOrder (orderBy : List OrderItem) (schema : Schema) : RowOrder where
  keys := orderBy.filterMap fun item => do
    let index ← schema.indexOf? item.expression
    let column ← schema.columns[index]?
    if column.type.isArray then none else some (index, item.direction)

/-- The best `offset + limit` rows without the first `offset`. -/
def orderedRows (q : Query) (schema : Schema) (tables : List DataTable) :
    Except QueryError (List Row) := do
  let empty := OrderedRows.empty (selectionOrder q.orderBy schema) q.options.rowsToKeep
  let rows ← (empty.offerAll (allRows tables)).toExcept
  return rows.sorted.drop q.options.offset

def reduceSelection (q : Query) (schema : Schema) (tables : List DataTable) :
    Except QueryError ResultTable := do
  let rows ←
    if q.orderBy.isEmpty then pure (selectedRows q tables) else orderedRows q schema tables
  ResultTable.render schema rows (Selection.outputColumns q.select schema.names)

/-! ## Aggregates -/

/-- The columns of final values. -/
def finalColumns (functions : List AggregateFunction) : List ResultColumn :=
  functions.map fun f => ⟨f.resultColumn, f.finalType, .metric⟩

/-- Merge two rows of aggregates, as far as both go. -/
def mergeRow (functions : List AggregateFunction) (left right : Row) : Except QueryError Row :=
  (functions.zip (left.zip right)).mapM fun (f, l, r) => f.merge l r

def finalizeRow (functions : List AggregateFunction) (row : Row) : Except QueryError Row :=
  (functions.zip row).mapM fun (f, value) => f.finalize value

/-- Merge the tables' first rows. Tables without rows leave a table
without rows. -/
def reduceAggregation (q : Query) (tables : List DataTable) : Except QueryError ResultTable := do
  let schema : Schema := ⟨finalColumns q.functions⟩
  match tables.filterMap (·.row? 0) with
  | [] => return ⟨schema, []⟩
  | first :: rest =>
    let merged ← rest.foldlM (mergeRow q.functions) first
    ResultTable.render schema [← finalizeRow q.functions merged] schema.names

/-! ## Groups -/

/-- Merge aggregates into a group's, as far as all go; the group keeps
what the others do not reach. -/
def mergeOnto : List AggregateFunction → Row → Row → Except QueryError Row
  | f :: functions, left :: current, right :: other => do
    return (← f.merge left right) :: (← mergeOnto functions current other)
  | _, current, _ => .ok current

/-- Take in one row of a group table. A new group is dropped once the
limit is reached. -/
def addGroup (q : Query) (table : GroupTable) (row : Row) : Except QueryError GroupTable := do
  let tuple := (row.take q.groupBy.length).map Cell.key
  let aggregates := row.drop q.groupBy.length
  match table.find? tuple with
  | some current => return table.insert tuple (← mergeOnto q.functions current aggregates)
  | none =>
    return if table.size < q.options.numGroupsLimit then table.insert tuple aggregates else table

/-- The groups of all tables. -/
def mergedGroups (q : Query) (tables : List DataTable) : Except QueryError GroupTable :=
  (allRows tables).foldlM (addGroup q) .empty

/-- The row order that an ORDER BY list makes over the result columns,
all of which must exist. -/
def groupOrder (orderBy : List OrderItem) (schema : Schema) : Except QueryError RowOrder :=
  (orderBy.mapM groupKey).map RowOrder.mk
where
  groupKey (item : OrderItem) : Except QueryError (Nat × Direction) :=
    match schema.indexOf? item.expression with
    | some index => .ok (index, item.direction)
    | none => .error (.groupOrder item.expression)

def reduceGroupBy (q : Query) (schema : Schema) (tables : List DataTable) :
    Except QueryError ResultTable := do
  let groups ← mergedGroups q tables
  let output : Schema := ⟨schema.columns.take q.groupBy.length ++ finalColumns q.functions⟩
  let rows ← groups.groups.mapM fun (tuple, aggregates) => do
    return tuple.map Key.cell ++ (← finalizeRow q.functions aggregates)
  let sorted ←
    if q.orderBy.isEmpty then pure rows else (groupOrder q.orderBy output).map (·.sort rows)
  ResultTable.render output ((sorted.drop q.options.offset).take q.options.limit) output.names

/-! ## Distinct values -/

/-- Take in values until no further one can count. -/
def addDistinct (values : DistinctValues) : List Row → Except QueryError DistinctValues
  | [] => .ok values
  | row :: rest => do
    let values ← values.addCell (row.head?.getD .null)
    if values.isSaturated then return values else addDistinct values rest

def reduceDistinct (q : Query) (schema : Schema) (tables : List DataTable) :
    Except QueryError ResultTable := do
  let column ← match schema.columns with
    | column :: _ => pure column
    | [] => throw .distinctTableWithoutColumn
  let type ← match column.type.storedType with
    | some type => pure type
    | none => throw (.distinctColumnType column.type)
  let order ← q.distinctOrder
  let empty ← DistinctValues.forColumn type (!column.type.isArray) order q.options.rowsToKeep
    q.options.nullHandling
  let values ← addDistinct empty (allRows tables)
  ResultTable.render schema (values.rows.drop q.options.offset) [column.name]

/-! ## Responses -/

/-- Reduce tables that have columns. The first one's schema stands for
all. -/
def reduceTables (q : Query) : List DataTable → Except QueryError ResultTable
  | [] => .ok .empty
  | first :: rest =>
    let schema := first.schema
    let tables := first :: rest
    match q.kind with
    | .selection => reduceSelection q schema tables
    | .aggregation => reduceAggregation q tables
    | .groupBy => reduceGroupBy q schema tables
    | .distinct => reduceDistinct q schema tables

/-- The result table that the servers' tables make. -/
def resultTable (q : Query) (tables : List DataTable) : Except QueryError ResultTable :=
  reduceTables q (tables.filter fun t => !t.schema.isEmpty)

/-- Reduce the servers' tables. -/
def reduce (q : Query) (tables : List DataTable) : Response :=
  let stats := tables.foldl (fun stats t => stats.merge t.stats) {}
  let exceptions := tables.flatMap DataTable.exceptions
  match resultTable q tables with
  | .ok table => ⟨some table, stats, exceptions⟩
  | .error e => ⟨none, stats, exceptions ++ [.ofError .mergeResponse e]⟩

end Broker

end SegmentQuery
