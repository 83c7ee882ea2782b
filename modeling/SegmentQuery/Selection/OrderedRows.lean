import SegmentQuery.Progress
import SegmentQuery.Selection.Order
import SegmentQuery.TopK
/-!
# Ordered rows

The best rows seen so far under a row order, at most a fixed number of
them. Merging re-offers the other side's rows in its heap layout.
-/


namespace SegmentQuery

/-- A bounded heap of rows and the order that it keeps. -/
structure OrderedRows where
  heap : TopK Row
  order : RowOrder

namespace OrderedRows

def empty (order : RowOrder) (maximum : Nat) : OrderedRows := ⟨.empty maximum, order⟩

def size (r : OrderedRows) : Nat := r.heap.size

/-- The rows in heap layout. -/
def layout (r : OrderedRows) : List Row := r.heap.toList

/-- Offer a row and tell whether it was kept. -/
def offer (r : OrderedRows) (row : Row) : Except QueryError (Bool × OrderedRows) := do
  r.order.validate row
  let (outcome, heap) := r.heap.offer r.order.compare row
  let kept := match outcome with
    | .rejected _ => false
    | _ => true
  return (kept, { r with heap := heap })

/-- Offer rows in order, up to the first that is refused. -/
def offerAll (r : OrderedRows) (rows : List Row) : Progress QueryError OrderedRows :=
  Progress.foldl (fun r row => .ofExcept r ((r.offer row).map (·.2))) r rows

/-- Take in another collection's rows. -/
def merge (target source : OrderedRows) : Progress QueryError OrderedRows :=
  target.offerAll source.layout

/-- The rows from first to last. -/
def sorted (r : OrderedRows) : List Row := r.heap.sorted r.order.compare

end OrderedRows

end SegmentQuery
