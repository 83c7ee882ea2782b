import SegmentQuery.Block.Source
import SegmentQuery.Metrics
import SegmentQuery.Result.Partial
/-!
# Scans

Every operator works through the pulls of a block source with a step of
its own: the step takes one block into the operator's state, says how
many of its documents count as scanned, and may ask to stop pulling.
`scanWith` adds the events around it. A scan that could not be opened or
that fails midway reports the blocks it finished, like any other.
-/


namespace SegmentQuery

/-- What an operator made of one block. -/
structure Visit (σ : Type) where
  state : σ
  documents : Nat
  finished : Bool := false

/-- How far a scan got. -/
structure ScanRun (σ : Type) where
  outcome : Except QueryError σ
  blocks : Nat
  documents : Nat
  events : List MetricEvent

namespace ScanRun

variable {σ : Type}

/-- A run that ends before its next block. -/
def ending (outcome : Except QueryError σ) (events : List MetricEvent) : ScanRun σ :=
  ⟨outcome, 0, 0, events⟩

/-- Count one finished block in front of a run. -/
def after (run : ScanRun σ) (documents : Nat) (events : List MetricEvent) : ScanRun σ where
  outcome := run.outcome
  blocks := run.blocks + 1
  documents := documents + run.documents
  events := events ++ run.events

end ScanRun

/-- Work through pulls until they end, one fails, or the step has seen
enough. -/
def scanPulls {σ : Type} (step : σ → Block → Traced (Except QueryError (Visit σ))) (state : σ) :
    List (Except QueryError Block) → ScanRun σ
  | [] => .ending (.ok state) []
  | .error e :: _ => .ending (.error e) []
  | .ok block :: rest =>
    let taken := step state block
    match taken.value with
    | .error e => .ending (.error e) taken.events
    | .ok visit =>
      let run :=
        if visit.finished then ScanRun.ending (.ok visit.state) []
        else scanPulls step visit.state rest
      run.after visit.documents taken.events

/-- A finished scan. -/
structure Scanned (σ : Type) where
  state : σ
  documents : Nat
  source : BlockSource

namespace Scanned

variable {σ : Type}

/-- The entries read after the filter. -/
def entries (s : Scanned σ) : Nat := s.documents * s.source.columnsProjected

/-- The statistics of a segment whose only scan this was. -/
def stats (s : Scanned σ) (totalDocs : Nat) : ExecutionStats :=
  { ExecutionStats.forSegment totalDocs with
    entriesInFilter := s.source.entriesInFilter }.recordScan s.documents s.entries

end Scanned

/-- Scan a source, reported as one run of an operator. -/
def scanWith {σ : Type} (kind : OperatorKind) (source : Except QueryError BlockSource)
    (step : σ → Block → Traced (Except QueryError (Visit σ))) (state : σ) :
    Traced (Except QueryError (Scanned σ)) :=
  match source with
  | .error e => ⟨.error e, [.operatorStart kind, .blocksScanned kind 0 0]⟩
  | .ok source =>
    let run := scanPulls step state source.pulls
    { value := run.outcome.map fun state => ⟨state, run.documents, source⟩
      events := .operatorStart kind :: run.events ++ [.blocksScanned kind run.blocks run.documents] }

/-- An operator run that scans nothing. -/
def scanNothing {α : Type} (kind : OperatorKind) (value : α) : Traced α :=
  ⟨value, [.operatorStart kind, .blocksScanned kind 0 0]⟩

/-- A step that emits no event of its own. -/
def quietly {σ : Type} (step : σ → Block → Except QueryError (Visit σ)) (state : σ) (block : Block) :
    Traced (Except QueryError (Visit σ)) := .silent (step state block)

end SegmentQuery
