import SegmentQuery.Counter
/-!
# Execution statistics

Counters that travel beside every partial result. Merging adds them up,
each stopping at its greatest value; the group-limit flag stays set once
any side has set it.
-/


namespace SegmentQuery

structure ExecutionStats where
  docsScanned : Nat := 0
  entriesInFilter : Nat := 0
  entriesPostFilter : Nat := 0
  totalDocs : Nat := 0
  segmentsProcessed : Nat := 0
  segmentsMatched : Nat := 0
  resizes : Nat := 0
  resizeMillis : Nat := 0
  groupsLimitReached : Bool := false
  deriving DecidableEq, Repr

namespace ExecutionStats

/-- The statistics of one segment before its scan. -/
def forSegment (totalDocs : Nat) : ExecutionStats :=
  { totalDocs := totalDocs, segmentsProcessed := 1 }

/-- Record scanned documents. A segment with any counts as matched. -/
def recordScan (s : ExecutionStats) (documents entries : Nat) : ExecutionStats :=
  let scanned := Counter.add s.docsScanned documents
  { s with
    docsScanned := scanned
    entriesPostFilter := Counter.add s.entriesPostFilter entries
    segmentsMatched := if 0 < scanned then 1 else s.segmentsMatched }

def merge (a b : ExecutionStats) : ExecutionStats where
  docsScanned := Counter.add a.docsScanned b.docsScanned
  entriesInFilter := Counter.add a.entriesInFilter b.entriesInFilter
  entriesPostFilter := Counter.add a.entriesPostFilter b.entriesPostFilter
  totalDocs := Counter.add a.totalDocs b.totalDocs
  segmentsProcessed := Counter.add a.segmentsProcessed b.segmentsProcessed
  segmentsMatched := Counter.add a.segmentsMatched b.segmentsMatched
  resizes := Counter.add a.resizes b.resizes
  resizeMillis := Counter.add a.resizeMillis b.resizeMillis
  groupsLimitReached := a.groupsLimitReached || b.groupsLimitReached

end ExecutionStats

end SegmentQuery
