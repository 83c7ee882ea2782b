import SegmentQuery.ColumnType.Convert
import SegmentQuery.Result.Schema
/-!
# Shown tables

The last step of a query: rows are projected onto the columns to show,
and every cell is converted to its column's type and shown.
-/


namespace SegmentQuery

/-- Rows as they are shown, and their columns. -/
structure ResultTable where
  schema : Schema
  rows : List Row

namespace ResultTable

def empty : ResultTable := ⟨.empty, []⟩

/-- A named column of the schema and its place. -/
def locate (schema : Schema) (name : String) : Except QueryError (Nat × ResultColumn) :=
  match schema.indexOf? name with
  | none => .error (.missingResultColumn name)
  | some index =>
    match schema.columns[index]? with
    | some column => .ok (index, column)
    | none => .error (.missingResultColumn name)

/-- The shown cells of one row; a missing cell is null. -/
def renderRow (columns : List (Nat × ResultColumn)) (row : Row) : Except QueryError Row :=
  columns.mapM fun (index, column) => column.type.render (row[index]?.getD .null)

/-- Project rows onto named columns, duplicates allowed, and show
them. -/
def render (schema : Schema) (rows : List Row) (names : List String) :
    Except QueryError ResultTable := do
  let columns ← names.mapM (locate schema)
  return ⟨⟨columns.map (·.2)⟩, ← rows.mapM (renderRow columns)⟩

end ResultTable

end SegmentQuery
