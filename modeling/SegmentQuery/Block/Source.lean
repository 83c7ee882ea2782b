import SegmentQuery.Column.Basic
/-!
# Blocks and where they come from

A block is a batch of documents: their numbers in the segment, and one
column per requested expression in request order. A block source is what
a scan pulls from: the answers of its successive pulls, each a block or
the error met instead of it, ending where the input ends. `Segment` is
what operators ask of stored documents; null sets are attached to blocks
only on request.
-/


namespace SegmentQuery

/-- One batch of documents. -/
structure Block where
  documents : List Nat
  columns : List Column

namespace Block

def size (b : Block) : Nat := b.documents.length

def column (b : Block) (index : Nat) : Except QueryError Column :=
  match b.columns[index]? with
  | some c => .ok c
  | none => .error (.columnOutsideBlock b.columns.length index)

end Block

/-- The pulls of one scan. -/
structure BlockSource where
  pulls : List (Except QueryError Block)
  /-- The distinct physical columns read per document. -/
  columnsProjected : Nat
  /-- The entries that the filter stage scanned before this scan. -/
  entriesInFilter : Nat

/-- What is known of a column without reading it. -/
structure ColumnMetadata where
  name : String
  type : StoredType
  singleValue : Bool
  role : FieldKind
  deriving DecidableEq

/-- The type of a result column that shows this column. -/
def ColumnMetadata.columnType (m : ColumnMetadata) : Except QueryError ColumnType :=
  if m.singleValue then .ok (.ofStored m.type)
  else match ColumnType.ofStoredArray? m.type with
    | some t => .ok t
    | none => .error (.unsupportedType .resultColumn m.type false)

/-- Stored documents, as operators see them. -/
structure Segment where
  name : String
  totalDocs : Nat
  /-- The physical columns, in schema order. -/
  columnNames : List String
  metadata : String → Except QueryError ColumnMetadata
  /-- Whether documents are declared to be stored in ascending order of a column. -/
  isSortedOn : String → Bool
  /-- Scan every matching document for some expressions, with null sets if asked. -/
  scan : (expressions : List String) → (nullHandling : Bool) → Except QueryError BlockSource
  /-- Scan exactly these documents, in ascending order. -/
  scanDocs : (expressions : List String) → (documents : DocSet) → (nullHandling : Bool) →
    Except QueryError BlockSource

end SegmentQuery
