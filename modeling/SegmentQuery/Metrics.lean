import SegmentQuery.Counter
/-!
# Metrics

Execution emits events; counters are their running totals. An operator
run emits one start and, when it ends for whatever reason, one report of
the blocks and documents it scanned. `Traced` pairs a value with the
events emitted while it was computed, in order.
-/


namespace SegmentQuery

/-- The operators that report scans. -/
inductive OperatorKind
  | selection
  | selectionOrderBy
  | aggregation
  | groupBy
  | distinct
  deriving DecidableEq, Repr

def OperatorKind.name : OperatorKind → String
  | .selection => "selection"
  | .selectionOrderBy => "selection_order_by"
  | .aggregation => "aggregation"
  | .groupBy => "group_by"
  | .distinct => "distinct"

inductive MetricEvent
  | operatorStart (kind : OperatorKind)
  | blocksScanned (kind : OperatorKind) (blocks documents : Nat)
  | groupResize (capacity : Nat)
  | mergeFinish (partials exceptions : Nat)
  deriving DecidableEq, Repr

/-- A value and the events emitted on the way to it. -/
structure Traced (α : Type) where
  value : α
  events : List MetricEvent

namespace Traced

variable {α β : Type}

def silent (a : α) : Traced α := ⟨a, []⟩

def map (f : α → β) (t : Traced α) : Traced β := ⟨f t.value, t.events⟩

/-- Compute in list order, events in the same order. -/
def sequence : List (Traced α) → Traced (List α)
  | [] => silent []
  | t :: rest => ⟨t.value :: (sequence rest).value, t.events ++ (sequence rest).events⟩

end Traced

/-- The totals of one operator kind. -/
structure OperatorCounters where
  calls : Nat := 0
  blocksScanned : Nat := 0
  docsScanned : Nat := 0
  deriving DecidableEq, Repr

/-- The totals of everything recorded so far. -/
structure Metrics where
  operatorCalls : Nat := 0
  blocksScanned : Nat := 0
  docsScanned : Nat := 0
  groupResizes : Nat := 0
  maxGroupCapacity : Nat := 0
  merges : Nat := 0
  partialsMerged : Nat := 0
  processingExceptions : Nat := 0
  operators : List (OperatorKind × OperatorCounters) := []
  deriving DecidableEq, Repr

namespace Metrics

/-- The totals of one operator kind, zero before its first event. -/
def operator (m : Metrics) (kind : OperatorKind) : OperatorCounters :=
  (m.operators.lookup kind).getD {}

/-- Replace the totals of one operator kind. -/
def setOperator (m : Metrics) (kind : OperatorKind) (c : OperatorCounters) : Metrics :=
  { m with operators := (kind, c) :: m.operators.filter (·.1 ≠ kind) }

/-- Add one event. -/
def record (m : Metrics) : MetricEvent → Metrics
  | .operatorStart kind =>
    let c := m.operator kind
    { m with operatorCalls := Counter.add m.operatorCalls 1 }.setOperator kind
      { c with calls := Counter.add c.calls 1 }
  | .blocksScanned kind blocks documents =>
    let c := m.operator kind
    { m with
      blocksScanned := Counter.add m.blocksScanned blocks
      docsScanned := Counter.add m.docsScanned documents }.setOperator kind
      { c with
        blocksScanned := Counter.add c.blocksScanned blocks
        docsScanned := Counter.add c.docsScanned documents }
  | .groupResize capacity =>
    { m with
      groupResizes := Counter.add m.groupResizes 1
      maxGroupCapacity := max m.maxGroupCapacity capacity }
  | .mergeFinish partials exceptions =>
    { m with
      merges := Counter.add m.merges 1
      partialsMerged := Counter.add m.partialsMerged partials
      processingExceptions := Counter.add m.processingExceptions exceptions }

/-- The totals of some events. -/
def ofEvents (events : List MetricEvent) : Metrics := events.foldl record {}

/-- The operators that have totals, by name. -/
def operatorsByName (m : Metrics) : List (OperatorKind × OperatorCounters) :=
  m.operators.mergeSort fun a b => (compare a.1.name b.1.name).isLE

end Metrics

end SegmentQuery
