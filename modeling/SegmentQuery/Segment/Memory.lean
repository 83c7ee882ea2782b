import SegmentQuery.Block.Source
/-!
# Segments in memory

A column segment holds whole columns and cuts them into blocks when it is
scanned: `MemoryScan.next?` delivers the next block and moves the cursor
on, until no document is left. Every column has one value per document,
column names are distinct, and a block holds at least one document: these
are facts of the type. A filter restricts `scan`; documents it names beyond
the segment do not exist. `scanDocs` ignores the filter and refuses
documents beyond the segment.

Document numbers have 32 bits. A segment may have more documents than that,
and a scan without a filter then starts to count again at 0. A memory
segment is one whose documents all have numbers of their own.
-/


namespace SegmentQuery

/-- A named column of a segment. -/
structure MemoryColumn where
  name : String
  role : FieldKind
  column : Column

/-- A segment whose columns are held whole. -/
structure ColumnSegment where
  name : String
  numDocs : Nat
  columns : List MemoryColumn
  blockSize : Nat
  sortedColumns : List String
  filter : Option DocSet
  length_columns : ∀ c ∈ columns, c.column.length = numDocs
  names_nodup : (columns.map MemoryColumn.name).Nodup
  blockSize_pos : 0 < blockSize

/-- A segment no two of whose documents share a number. -/
structure MemorySegment extends ColumnSegment where
  numDocs_le : numDocs ≤ Number.bound32

/-- The number of documents per block unless a segment says otherwise. -/
def defaultBlockSize : Nat := 10000

namespace ColumnSegment

/-! ## Building -/

/-- A segment without columns. -/
def empty (name : String) (numDocs : Nat) : ColumnSegment where
  name := name
  numDocs := numDocs
  columns := []
  blockSize := defaultBlockSize
  sortedColumns := []
  filter := none
  length_columns := by simp
  names_nodup := by simp
  blockSize_pos := by decide

/-- Add a column. It must have a value per document and a new name. -/
def withColumn (s : ColumnSegment) (name : String) (role : FieldKind) (column : Column) :
    Except QueryError ColumnSegment :=
  if hlen : column.length = s.numDocs then
    if hname : name ∈ s.columns.map MemoryColumn.name then
      .error (.duplicateColumn name s.name)
    else
      .ok
        { s with
          columns := s.columns ++ [⟨name, role, column⟩]
          length_columns := by
            intro c hc
            rcases List.mem_append.1 hc with hc | hc
            · exact s.length_columns c hc
            · rw [List.mem_singleton.1 hc]; exact hlen
          names_nodup := by
            rw [List.map_append, List.nodup_append]
            refine ⟨s.names_nodup, by simp, ?_⟩
            intro a ha b hb
            have : b = name := by simpa using hb
            rintro rfl
            exact hname (this ▸ ha) }
  else .error (.columnLength name column.length s.name s.numDocs)

/-- Set the number of documents per block; 0 means 1. -/
def withBlockSize (s : ColumnSegment) (blockSize : Nat) : ColumnSegment :=
  { s with blockSize := max 1 blockSize, blockSize_pos := by omega }

/-- Declare that documents are stored in ascending order of a column. -/
def withSortedColumn (s : ColumnSegment) (column : String) : ColumnSegment :=
  { s with sortedColumns := column :: s.sortedColumns }

/-- Restrict scans to the documents that a filter matched. -/
def withFilter (s : ColumnSegment) (documents : DocSet) : ColumnSegment :=
  { s with filter := some documents }

/-! ## Scanning -/

def find (s : ColumnSegment) (name : String) : Except QueryError MemoryColumn :=
  match s.columns.find? (·.name == name) with
  | some c => .ok c
  | none => .error (.unknownColumn name s.name)

def metadata (s : ColumnSegment) (name : String) : Except QueryError ColumnMetadata :=
  (s.find name).map fun c => ⟨c.name, c.column.type, c.column.isSingleValue, c.role⟩

/-- The numbers of the documents that a scan visits. -/
def matching (s : ColumnSegment) : List Nat :=
  match s.filter with
  | some documents => documents.toList.filter (· < s.numDocs)
  | none => (List.range s.numDocs).map (· % Number.bound32)

/-- The columns' values for a batch of documents. -/
def block (columns : List MemoryColumn) (nullHandling : Bool) (documents : List Nat) : Block where
  documents := documents
  columns := columns.map fun c =>
    let taken := c.column.select documents
    if nullHandling then taken else taken.dropNulls

end ColumnSegment

/-- A scan in progress: what it reads of which documents, and how many of
these it has delivered. -/
structure MemoryScan where
  columns : List MemoryColumn
  nullHandling : Bool
  blockSize : Nat
  documents : List Nat
  cursor : Nat
  blockSize_pos : 0 < blockSize

namespace MemoryScan

/-- The next block, and the scan after it; none at the end. -/
def next? (scan : MemoryScan) : Option (Block × MemoryScan) :=
  if scan.cursor < scan.documents.length then
    let stop := min (scan.cursor + scan.blockSize) scan.documents.length
    let batch := (scan.documents.drop scan.cursor).take (stop - scan.cursor)
    some (ColumnSegment.block scan.columns scan.nullHandling batch, { scan with cursor := stop })
  else none

/-- Every block moves the cursor on. -/
theorem next?_lt {scan after : MemoryScan} {block : Block} (h : scan.next? = some (block, after)) :
    after.documents.length - after.cursor < scan.documents.length - scan.cursor := by
  unfold next? at h
  split at h
  · cases h
    have := scan.blockSize_pos
    dsimp only
    omega
  · exact nomatch h

/-- The blocks that are still to come. -/
def blocks (scan : MemoryScan) : List Block :=
  match _h : scan.next? with
  | none => []
  | some (block, after) => block :: after.blocks
termination_by scan.documents.length - scan.cursor
decreasing_by exact next?_lt _h

end MemoryScan

namespace ColumnSegment

/-- A scan of some documents that has not begun. -/
def startScan (s : ColumnSegment) (expressions : List String) (documents : List Nat)
    (nullHandling : Bool) : Except QueryError MemoryScan := do
  return {
    columns := ← expressions.mapM s.find
    nullHandling := nullHandling
    blockSize := s.blockSize
    documents := documents
    cursor := 0
    blockSize_pos := s.blockSize_pos }

/-- A source that delivers `documents` block by block. -/
def source (s : ColumnSegment) (expressions : List String) (documents : List Nat)
    (entriesInFilter : Nat) (nullHandling : Bool) : Except QueryError BlockSource := do
  let scan ← s.startScan expressions documents nullHandling
  return {
    pulls := scan.blocks.map .ok
    columnsProjected := (scan.columns.map MemoryColumn.name).eraseDups.length
    entriesInFilter := entriesInFilter }

/-- The bytes of the document numbers that a scan without a filter lists. -/
def numberBytes (s : ColumnSegment) : Nat := 4 * s.numDocs

@[simp] theorem numberBytes_empty (name : String) (numDocs : Nat) :
    (empty name numDocs).numberBytes = 4 * numDocs := rfl

/-- Scan the documents that the filter lets through, or else all. -/
def scan (s : ColumnSegment) (expressions : List String) (nullHandling : Bool) :
    Except QueryError BlockSource :=
  if s.filter.isNone ∧ Number.maxAllocation < s.numberBytes then
    .error (.allocation .fetch s.numberBytes)
  else s.source expressions s.matching (if s.filter.isSome then s.numDocs else 0) nullHandling

def scanDocs (s : ColumnSegment) (expressions : List String) (documents : DocSet)
    (nullHandling : Bool) : Except QueryError BlockSource :=
  match documents.max? with
  | some last =>
    if s.numDocs ≤ last then .error (.documentOutsideSegment last s.name s.numDocs)
    else s.source expressions documents.toList 0 nullHandling
  | none => s.source expressions documents.toList 0 nullHandling

/-- The segment as operators see it. -/
def segment (s : ColumnSegment) : Segment where
  name := s.name
  totalDocs := s.numDocs
  columnNames := s.columns.map MemoryColumn.name
  metadata := s.metadata
  isSortedOn := fun column => s.sortedColumns.contains column
  scan := s.scan
  scanDocs := s.scanDocs

/-! ## Numbers of their own -/

/-- Where there are no more documents than numbers, all are listed as they
are. -/
theorem matching_of_none {s : ColumnSegment} (hfilter : s.filter = none)
    (hle : s.numDocs ≤ Number.bound32) : s.matching = List.range s.numDocs := by
  rw [matching, hfilter]
  refine (List.map_congr_left fun d hd => ?_).trans (List.map_id _)
  exact Nat.mod_eq_of_lt (Nat.lt_of_lt_of_le (List.mem_range.1 hd) hle)

/-- A scan without a filter needs room for its list of numbers. -/
theorem scan_of_none {s : ColumnSegment} (hfilter : s.filter = none) (expressions : List String)
    (nullHandling : Bool) :
    s.scan expressions nullHandling =
      if Number.maxAllocation < s.numberBytes then .error (.allocation .fetch s.numberBytes)
      else s.source expressions s.matching 0 nullHandling := by
  simp [scan, hfilter]

/-- There is room while the documents have numbers of their own. -/
theorem scan_eq {s : ColumnSegment} (hle : s.filter = none → s.numDocs ≤ Number.bound32)
    (expressions : List String) (nullHandling : Bool) :
    s.scan expressions nullHandling = s.source expressions s.matching
      (if s.filter.isSome then s.numDocs else 0) nullHandling := by
  refine if_neg fun ⟨hnone, hbytes⟩ => ?_
  have hfew := hle (Option.isNone_iff_eq_none.1 hnone)
  simp only [numberBytes, Number.maxAllocation, Number.bound32] at hbytes hfew
  omega

end ColumnSegment

namespace MemorySegment

export ColumnSegment (block)

/-- The segment as operators see it. -/
abbrev segment (s : MemorySegment) : Segment := s.toColumnSegment.segment

/-- Set the number of documents per block; 0 means 1. -/
def withBlockSize (s : MemorySegment) (blockSize : Nat) : MemorySegment :=
  { s.toColumnSegment.withBlockSize blockSize with numDocs_le := s.numDocs_le }

/-- Restrict scans to the documents that a filter matched. -/
def withFilter (s : MemorySegment) (documents : DocSet) : MemorySegment :=
  { s.toColumnSegment.withFilter documents with numDocs_le := s.numDocs_le }

theorem matching_of_none {s : MemorySegment} (h : s.filter = none) :
    s.matching = List.range s.numDocs := ColumnSegment.matching_of_none h s.numDocs_le

theorem matching_of_some {s : MemorySegment} {documents : DocSet} (h : s.filter = some documents) :
    s.matching = documents.toList.filter (· < s.numDocs) := by
  rw [ColumnSegment.matching, h]

theorem scan_eq (s : MemorySegment) (expressions : List String) (nullHandling : Bool) :
    s.scan expressions nullHandling = s.source expressions s.matching
      (if s.filter.isSome then s.numDocs else 0) nullHandling :=
  ColumnSegment.scan_eq (fun _ => s.numDocs_le) expressions nullHandling

end MemorySegment

end SegmentQuery
