import SegmentQuery.Proofs.Operator.Scanning
import SegmentQuery.Proofs.Selection.Plans
/-!
# Selections without an order

A selection without ORDER BY takes the rows of the first matching
documents, as many as it is to keep, wherever the blocks end.
-/


namespace SegmentQuery

namespace Selection

/-- The first rows of a block that reads as its documents' rows. -/
theorem firstRows_ok {b : Block} {width : Nat} {read : Nat → Row} {view : RowView}
    (h : b.Reads width read view) {n : Nat} (hn : n ≤ b.size) :
    firstRows b n = .ok ((b.documents.take n).map read) := by
  rw [firstRows, h.view_eq]
  exact h.mapM_row hn

/-- **A scan takes the rows of the first documents** until it has as many
as it is to keep. -/
theorem outcome_takeStep {keep width : Nat} {read : Nat → Row} {blocks : List Block}
    (hreads : ∀ b ∈ blocks, ∃ view, b.Reads width read view) {rows : List Row}
    (hroom : rows.length < keep) :
    (scanPulls (quietly (takeStep keep)) rows (blocks.map .ok)).outcome =
      .ok (rows ++ ((blocks.flatMap Block.documents).map read).take (keep - rows.length)) := by
  induction blocks generalizing rows with
  | nil => simp [scanPulls, ScanRun.ending]
  | cons b rest ih =>
    obtain ⟨⟨view, hview⟩, hrest⟩ := List.forall_mem_cons.1 hreads
    have hsize : b.size = b.documents.length := rfl
    have htake : takeStep keep rows b =
        .ok ⟨rows ++ (b.documents.map read).take (keep - rows.length),
          min b.size (keep - rows.length),
          decide (keep ≤ (rows ++ (b.documents.map read).take (keep - rows.length)).length)⟩ := by
      rw [takeStep, firstRows_ok hview (Nat.min_le_left _ _), ← List.map_take,
        List.take_eq_take_min (i := keep - rows.length), Nat.min_comm, hsize]
      rfl
    rw [List.map_cons, scanPulls, quietly, htake]
    simp only [Traced.silent, ScanRun.after, List.flatMap_cons, List.map_append]
    by_cases hdone : keep - rows.length ≤ b.documents.length
    · -- the block has as many as there is room for
      have hfull : keep ≤ (rows ++ (b.documents.map read).take (keep - rows.length)).length := by
        rw [List.length_append, List.length_take, List.length_map]
        omega
      rw [decide_eq_true hfull, if_pos rfl, List.take_append_of_le_length (by simpa using hdone)]
      rfl
    · have hall : (b.documents.map read).take (keep - rows.length) = b.documents.map read :=
        List.take_of_length_le (by rw [List.length_map]; omega)
      have hmore : (rows ++ b.documents.map read).length < keep := by
        rw [List.length_append, List.length_map]
        omega
      rw [hall, decide_eq_false (by omega)]
      simp only [Bool.false_eq_true, if_false]
      rw [ih hrest hmore, List.append_assoc, List.take_append, hall, List.length_append,
        List.length_map, Nat.sub_add_eq]

/-- **A selection without an order yields the rows of the first matching
documents.** -/
theorem runUnordered_eq {s : MemorySegment} {select : List String} {options : Options}
    {output : Schema} (hlimit : 0 < options.limit)
    (hschema : schema s.segment
      (fetchedExpressions select [] options.limit s.segment.columnNames) = .ok output) :
    ∃ stats, (runUnordered s.segment select options).value =
      .ok ⟨output, .selection ((s.matching.map (s.row options.nullHandling
        (fetchedExpressions select [] options.limit s.segment.columnNames))).take
          options.rowsToKeep), stats, []⟩ := by
  obtain ⟨source, blocks, hscan, hpulls, hdocuments, hreads⟩ :=
    MemorySegment.scan_delivers (fetchable_iff.2 ⟨output, hschema⟩) options.nullHandling
  have hroom : ([] : List Row).length < options.rowsToKeep := Plan.rowsToKeep_pos hlimit
  have hrows := outcome_takeStep hreads hroom
  rw [← hpulls, hdocuments, List.nil_append, List.length_nil, Nat.sub_zero] at hrows
  obtain ⟨documents, hvalue⟩ := scanWith_value .selection hrows
  have hsource : s.segment.scan (fetchedExpressions select [] options.limit s.segment.columnNames)
      options.nullHandling = .ok source := hscan
  unfold runUnordered
  simp only [hschema, if_neg (Nat.pos_iff_ne_zero.1 hlimit), hsource, Traced.map, hvalue, Except.map]
  exact ⟨_, rfl⟩

end Selection

end SegmentQuery
