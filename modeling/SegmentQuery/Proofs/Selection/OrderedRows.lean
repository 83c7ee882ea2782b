import SegmentQuery.Proofs.Heap.Offer
import SegmentQuery.Proofs.Order.Rows
/-!
# Collecting rows in order

Rows that the order accepts are offered to the heap, and nothing else
happens: `put` is what one of them does to the collection. The collection
holds the best of them, and shows those in order.
-/


namespace SegmentQuery

namespace OrderedRows

/-- The collection after an accepted row was offered. -/
def put (r : OrderedRows) (row : Row) : OrderedRows :=
  { r with heap := (r.heap.offer r.order.compare row).2 }

/-- An accepted row is offered. -/
theorem offer_ok {r : OrderedRows} {row : Row} (h : r.order.validate row = .ok ()) :
    ∃ kept, r.offer row = .ok (kept, r.put row) := by
  exact ⟨_, by rw [offer, h]; rfl⟩

/-- Putting rows one by one offers them one by one. -/
theorem foldl_put (r : OrderedRows) (rows : List Row) :
    rows.foldl put r = { r with heap := r.heap.offerAll r.order.compare rows } := by
  induction rows generalizing r with
  | nil => rfl
  | cons row rows ih => exact ih (r.put row)

/-- **Accepted rows are all offered.** -/
theorem offerAll_ok {r : OrderedRows} {rows : List Row}
    (h : ∀ row ∈ rows, r.order.validate row = .ok ()) :
    r.offerAll rows = .done (rows.foldl put r) := by
  induction rows generalizing r with
  | nil => rfl
  | cons row rows ih =>
    obtain ⟨hrow, hrows⟩ := List.forall_mem_cons.1 h
    obtain ⟨kept, hoffer⟩ := offer_ok hrow
    rw [offerAll, Progress.foldl, hoffer]
    exact ih hrows

/-- Accepted rows offered to an empty collection leave their best. -/
theorem isBest_offerAll (order : RowOrder) (maximum : Nat) (rows : List Row) :
    ∃ dropped, IsBest order.compare maximum rows
      (rows.foldl put (empty order maximum)).layout dropped := by
  rw [foldl_put]
  exact ⟨_, TopK.isBest_offerAll_empty order.compare maximum rows⟩

@[simp] theorem order_foldl_put (r : OrderedRows) (rows : List Row) :
    (rows.foldl put r).order = r.order := by
  rw [foldl_put]

/-! ## The best rows -/

variable {order : RowOrder} {maximum : Nat} {all : List Row} {target : OrderedRows}

/-- A collection that compares as an order does and holds the best of
some rows. -/
structure Best (order : RowOrder) (maximum : Nat) (all : List Row) (r : OrderedRows) : Prop where
  compare_eq : r.order.compare = order.compare
  valid : r.heap.Valid order.compare
  maximum_eq : r.heap.maximum = maximum
  best : ∃ dropped, IsBest order.compare maximum all r.layout dropped

theorem maximum_foldl_put (r : OrderedRows) (rows : List Row) :
    (rows.foldl put r).heap.maximum = r.heap.maximum := by
  induction rows generalizing r with
  | nil => rfl
  | cons row rows ih => exact (ih (r.put row)).trans (TopK.maximum_offer ..)

/-- Rows put into an empty collection. -/
theorem best_foldl_put {order' : RowOrder} (h : order'.compare = order.compare) (maximum : Nat)
    (rows : List Row) : Best order maximum rows (rows.foldl put (empty order' maximum)) where
  compare_eq := by rw [order_foldl_put]; exact h
  valid := by
    rw [foldl_put, ← h]
    exact (TopK.valid_empty maximum).offerAll rows
  maximum_eq := maximum_foldl_put _ rows
  best := h ▸ isBest_offerAll order' maximum rows

/-! ## What is shown -/

/-- A collection shows its layout in order. -/
theorem Best.sorted_eq (h : Best order maximum all target) :
    target.sorted = order.sort target.layout := by
  rw [sorted, h.compare_eq]
  rfl

theorem Best.ascending_sorted (h : Best order maximum all target) :
    Ascending order.compare target.sorted := by
  rw [h.sorted_eq]
  exact order.ascending_sort target.layout

/-- What a collection shows are the best rows too. -/
theorem Best.isBest_sorted (h : Best order maximum all target) :
    ∃ dropped, IsBest order.compare maximum all target.sorted dropped := by
  obtain ⟨dropped, hbest⟩ := h.best
  rw [h.sorted_eq]
  exact ⟨dropped, hbest.congr_perm (.refl all) (order.sort_perm target.layout)⟩

/-- What a collection shows, in key tuples, is the front of all rows
sorted. -/
theorem Best.map_keyTuple_sorted (h : Best order maximum all target) :
    target.sorted.map order.keyTuple = ((order.sort all).map order.keyTuple).take maximum := by
  obtain ⟨dropped, hbest⟩ := h.best
  rw [h.sorted_eq]
  exact hbest.map_key_sorted order.compare_eq_iff

end OrderedRows

end SegmentQuery
