import SegmentQuery.Proofs.Operator.Scanning
import SegmentQuery.Proofs.Selection.OrderedRows
import SegmentQuery.Proofs.Selection.Plans
/-!
# One pass over a segment

The one-pass strategies put the rows of documents into a collection one
by one: those of all matching documents, or those of the first `keep`
ones where the segment is declared sorted.
-/


namespace SegmentQuery

namespace Selection

namespace Plan

variable {s : MemorySegment} {p : Plan} {order : RowOrder}

/-- Offering the first documents of a block puts their rows. -/
theorem offerFirst_ok {b : Block} {width : Nat} {read : Nat → Row} {view : RowView}
    (hb : b.Reads width read view) (hacc : ∀ d, order.validate (read d) = .ok ())
    {r : OrderedRows} (hr : r.order = order) {count : Nat} (hcount : count ≤ b.size) :
    offerFirst b count r = .ok ((b.documents.take count).foldl (fun r d => r.put (read d)) r) := by
  rw [offerFirst, hb.view_eq]
  refine foldlM_range (P := fun r : OrderedRows => r.order = order)
    (g := fun r d => r.put (read d)) (fun r d hr => hr) ?_ hr hcount
  intro r hr i hi
  have haccepted : r.order.validate (read b.documents[i]) = .ok () := by
    rw [hr]
    exact hacc _
  obtain ⟨kept, hoffer⟩ := OrderedRows.offer_ok haccepted
  rw [hb.row_eq i hi]
  simp only [bind, Except.bind, hoffer, pure, Except.pure]

/-- The rows of documents put one by one. -/
theorem foldl_put_map (read : Nat → Row) (r : OrderedRows) (documents : List Nat) :
    documents.foldl (fun r d => r.put (read d)) r = (documents.map read).foldl OrderedRows.put r :=
  List.foldl_map.symm

/-- **A whole pass collects the rows of all matching documents.** -/
theorem runOnePass_whole (hp : p.segment = s.segment) (hfetch : s.Fetchable p.expressions)
    (horder : p.order = .ok order) (hstrategy : p.strategy ≠ .preSorted) :
    ∃ stats, (p.runOnePass order).value =
      .ok ((s.matching.map (s.row p.nullHandling p.expressions)).foldl OrderedRows.put
        (.empty order p.keep), stats) := by
  obtain ⟨source, blocks, hscan, hpulls, hdocs, hreads⟩ :=
    MemorySegment.scan_delivers hfetch p.nullHandling
  have hacc (d : Nat) : order.validate (s.row p.nullHandling p.expressions d) = .ok () :=
    validate_row hp hfetch horder p.nullHandling d
  have hsource : p.segment.scan p.expressions p.nullHandling = .ok source := by rw [hp]; exact hscan
  have hfold : (scanPulls (quietly offerStep) (OrderedRows.empty order p.keep)
      (blocks.map .ok)).outcome = .ok ((blocks.flatMap Block.documents).foldl
        (fun r d => r.put (s.row p.nullHandling p.expressions d)) (.empty order p.keep)) := by
    refine scanPulls_whole (P := fun r : OrderedRows => r.order = order) ?_
      (fun r hr b hb => ?_) rfl
    · exact fun r d hr => hr
    obtain ⟨view, hview⟩ := hreads b hb
    refine ⟨b.size, ?_⟩
    rw [offerStep, offerFirst_ok hview hacc hr (Nat.le_refl _), Block.size, List.take_length]
    rfl
  rw [← hpulls, hdocs, foldl_put_map] at hfold
  obtain ⟨documents, hvalue⟩ := scanWith_value .selectionOrderBy hfold
  unfold runOnePass
  split
  · rename_i hpre
    exact absurd hpre hstrategy
  · exact ⟨_, by rw [hsource]; simp only [Traced.map, hvalue, Except.map]; rfl⟩

/-- **A pass over a segment that is declared sorted collects the rows of
the first `keep` matching documents.** -/
theorem runOnePass_front (hp : p.segment = s.segment) (hfetch : s.Fetchable p.expressions)
    (horder : p.order = .ok order) (hstrategy : p.strategy = .preSorted) (hkeep : 0 < p.keep) :
    ∃ stats, (p.runOnePass order).value =
      .ok (((s.matching.take p.keep).map (s.row p.nullHandling p.expressions)).foldl
        OrderedRows.put (.empty order p.keep), stats) := by
  obtain ⟨source, blocks, hscan, hpulls, hdocs, hreads⟩ :=
    MemorySegment.scan_delivers hfetch p.nullHandling
  have hacc (d : Nat) : order.validate (s.row p.nullHandling p.expressions d) = .ok () :=
    validate_row hp hfetch horder p.nullHandling d
  have hsource : p.segment.scan p.expressions p.nullHandling = .ok source := by rw [hp]; exact hscan
  obtain ⟨scanned, hfold⟩ : ∃ scanned, (scanPulls (quietly p.frontStep)
      (OrderedRows.empty order p.keep, 0) (blocks.map .ok)).outcome =
        .ok (((blocks.flatMap Block.documents).take (p.keep - 0)).foldl
          (fun r d => r.put (s.row p.nullHandling p.expressions d)) (.empty order p.keep),
          scanned) := by
    refine scanPulls_front (P := fun r : OrderedRows => r.order = order) ?_
      (fun r n hr b hb => ?_) rfl hkeep
    · exact fun r d hr => hr
    obtain ⟨view, hview⟩ := hreads b hb
    refine ⟨min b.size (p.keep - n), ?_⟩
    have htake : b.documents.take (min b.size (p.keep - n)) = b.documents.take (p.keep - n) := by
      rw [Nat.min_comm, Block.size, ← List.take_eq_take_min]
    rw [frontStep]
    simp only [offerFirst_ok hview hacc hr (Nat.min_le_left _ _), htake]
    rfl
  rw [← hpulls, hdocs, foldl_put_map, Nat.sub_zero] at hfold
  obtain ⟨documents, hvalue⟩ := scanWith_value .selectionOrderBy hfold
  unfold runOnePass
  split
  · exact ⟨_, by rw [hsource]; simp only [Traced.map, hvalue, Except.map]; rfl⟩
  · rename_i hpre
    exact absurd hstrategy hpre

end Plan

end Selection

end SegmentQuery
