import SegmentQuery.Column.Basic
import SegmentQuery.Progress
/-!
# Rows of a block

A row view reads the columns of one block row by row. It exists only
when every column has a layout that cells can hold. A cell of a
single-value column is null when the column's null set records its
position, whether or not the block reaches that far; multi-value columns
ignore their null sets.
-/


namespace SegmentQuery

/-- A column as cells, with the null set that reading respects. -/
structure CellColumn where
  cells : List Cell
  nulls : Option DocSet

namespace CellColumn

/-- A column as cells; multi-value decimals and bytes have none. -/
def ofColumn (c : Column) : Except QueryError CellColumn :=
  match c.values with
  | .single t vs => .ok ⟨vs.map t.cell, c.nulls⟩
  | .multi t vs =>
    match t.arrayCell? with
    | some toCell => .ok ⟨vs.map toCell, none⟩
    | none => .error (.unsupportedType .rowFetch t false)

/-- The cell of one document. -/
def cell (c : CellColumn) (document : Nat) : Except QueryError Cell :=
  if Column.recordsNull c.nulls document then .ok .null
  else match c.cells[document]? with
    | some cell => .ok cell
    | none => .error (.documentOutsideBlock document)

end CellColumn

/-- The columns of a block, read by row. -/
structure RowView where
  columns : List CellColumn

namespace RowView

def ofColumns (columns : List Column) : Except QueryError RowView :=
  (columns.mapM CellColumn.ofColumn).map RowView.mk

def width (v : RowView) : Nat := v.columns.length

/-- The row of one document. -/
def row (v : RowView) (document : Nat) : Except QueryError Row :=
  v.columns.mapM (·.cell document)

/-- Write one document's cells over `buffer` from position `start` on.
Cells written before an error stay written. Positions have 64 bits, so
the end that an error names may have wrapped around. -/
def fill (v : RowView) (document start : Nat) (buffer : Row) : Progress QueryError Row :=
  if start + v.width ≤ buffer.length then
    Progress.foldl
      (fun row (column, place) =>
        match column.cell document with
        | .ok cell => .done (row.set place cell)
        | .error e => .stopped row e)
      buffer (v.columns.zipIdx start)
  else .stopped buffer (.rowBufferTooNarrow buffer.length start ((start + v.width) % Number.bound64))

/-- The null set of a column, none for one without and for a multi-value
column. -/
def nulls? (v : RowView) (column : Nat) : Option DocSet := v.columns[column]?.bind (·.nulls)

end RowView

end SegmentQuery
