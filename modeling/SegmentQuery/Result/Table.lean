import SegmentQuery.Result.NullSet
import SegmentQuery.Result.Partial
import SegmentQuery.Text.Numeral
/-!
# Data tables

The form in which a server hands a partial result on: plain rows that
follow a schema, with no null among them. A null cell is stored as its
column's placeholder, and the row's number is recorded in the column's
null set; reading a row puts the nulls back. Statistics travel as texts
in the metadata.
-/


namespace SegmentQuery

/-! ## Metadata -/

/-- Texts by name, names ascending and all different. -/
structure Metadata where
  entries : List (String × String)
  deriving DecidableEq, Repr

namespace Metadata

def empty : Metadata := ⟨[]⟩

/-- Put a text at its name's place, over the one that was there. -/
def setSorted (name text : String) : List (String × String) → List (String × String)
  | [] => [(name, text)]
  | entry :: rest =>
    match Text.compare name entry.1 with
    | .lt => (name, text) :: entry :: rest
    | .eq => (name, text) :: rest
    | .gt => entry :: setSorted name text rest

def set (m : Metadata) (name text : String) : Metadata := ⟨setSorted name text m.entries⟩

def get? (m : Metadata) (name : String) : Option String := m.entries.lookup name

/-- Texts by name from a list; the last one for a name counts. -/
def ofList (entries : List (String × String)) : Metadata :=
  entries.foldl (fun m (name, text) => m.set name text) empty

/-- A counter kept as text; one that is missing or malformed is 0. -/
def counter (m : Metadata) (name : String) : Nat :=
  ((m.get? name).bind fun text => Text.natural? Number.bound64 text.toList).getD 0

end Metadata

namespace ExecutionStats

/-- The counters by name, the flag as 0 or 1. -/
def entries (s : ExecutionStats) : List (String × Nat) :=
  [("numDocsScanned", s.docsScanned),
    ("numEntriesScannedInFilter", s.entriesInFilter),
    ("numEntriesScannedPostFilter", s.entriesPostFilter),
    ("totalDocs", s.totalDocs),
    ("numSegmentsProcessed", s.segmentsProcessed),
    ("numSegmentsMatched", s.segmentsMatched),
    ("numResizes", s.resizes),
    ("resizeTimeMs", s.resizeMillis),
    ("numGroupsLimitReached", if s.groupsLimitReached then 1 else 0)]

/-- The statistics with these counters. -/
def ofCounters (counter : String → Nat) : ExecutionStats where
  docsScanned := counter "numDocsScanned"
  entriesInFilter := counter "numEntriesScannedInFilter"
  entriesPostFilter := counter "numEntriesScannedPostFilter"
  totalDocs := counter "totalDocs"
  segmentsProcessed := counter "numSegmentsProcessed"
  segmentsMatched := counter "numSegmentsMatched"
  resizes := counter "numResizes"
  resizeMillis := counter "resizeTimeMs"
  groupsLimitReached := counter "numGroupsLimitReached" != 0

end ExecutionStats

/-! ## Tables -/

/-- Rows without nulls, and where the nulls were, column by column. -/
structure DataTable where
  schema : Schema
  rows : List Row
  nulls : List NullSet
  metadata : Metadata
  exceptions : List ProcessingException
  deriving DecidableEq

namespace DataTable

/-- The row with the columns' placeholders for its nulls. -/
def storedRow (schema : Schema) (row : Row) : Row :=
  List.zipWith (fun cell column =>
    if cell.isNull then column.type.placeholder column.role else cell) row schema.columns

/-- Refuse rows that do not fit the schema. -/
def checkRows (width : Nat) (rows : List Row) : Except QueryError Unit :=
  rows.zipIdx.forM fun (row, index) => do
    if row.length ≠ width then throw (.rowWidth index row.length width)
    if Number.bound32 ≤ index then throw .tooManyRows

/-- The rows whose cell in a column is null. -/
def nullsOf (rows : List Row) (column : Nat) : NullSet :=
  .ofDocSet (.ofList ((rows.zipIdx.filter fun p => p.1[column]?.any Cell.isNull).map (·.2)))

/-- A table of rows, each as wide as the schema. -/
def ofRows (schema : Schema) (rows : List Row) : Except QueryError DataTable := do
  checkRows schema.width rows
  return {
    schema := schema
    rows := rows.map (storedRow schema)
    nulls := (List.range schema.width).map (nullsOf rows)
    metadata := .empty
    exceptions := [] }

def withStats (t : DataTable) (stats : ExecutionStats) : DataTable :=
  { t with
    metadata := stats.entries.foldl (fun m (name, n) => m.set name s!"{n}") t.metadata }

/-- The statistics recorded in the metadata. -/
def stats (t : DataTable) : ExecutionStats := .ofCounters t.metadata.counter

def ofPartial (r : PartialResult) : Except QueryError DataTable :=
  (ofRows r.schema r.rows.rows).map fun t =>
    { t.withStats r.stats with exceptions := r.exceptions }

/-! ## Reading -/

/-- Put the nulls of row `index` back, column by column. -/
def restoreNulls (index : Nat) : Row → List NullSet → Row
  | cell :: row, nulls :: rest =>
    (if nulls.contains index then .null else cell) :: restoreNulls index row rest
  | row, _ => row

/-- The row with its nulls. -/
def row? (t : DataTable) (index : Nat) : Option Row :=
  t.rows[index]?.map fun row => restoreNulls index row t.nulls

/-- All rows with their nulls. -/
def allRows (t : DataTable) : List Row :=
  t.rows.zipIdx.map fun (row, index) => restoreNulls index row t.nulls

end DataTable

end SegmentQuery
