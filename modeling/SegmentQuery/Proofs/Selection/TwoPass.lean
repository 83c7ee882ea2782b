import SegmentQuery.Proofs.Operator.Scanning
import SegmentQuery.Proofs.Selection.FirstPass
import SegmentQuery.Proofs.Selection.OrderedRows
import SegmentQuery.Proofs.Selection.Plans
import SegmentQuery.Proofs.Selection.SecondPass
/-!
# Two passes are one

The first pass orders documents by their ORDER BY cells alone, in rows
that are null elsewhere; the second completes the rows that stayed. What
comes out is what one pass over the full rows would have collected, down
to the layout of the heap, and the second pass never meets a document
that it does not expect.
-/


namespace SegmentQuery

open Std (TransCmp OrientedCmp)

namespace Selection

namespace Plan

variable {s : MemorySegment} {p : Plan} {order : RowOrder}

instance (order : RowOrder) (read : Nat → Row) : TransCmp (documentOrder order read) where
  eq_swap {x y} := @OrientedCmp.eq_swap _ order.compare _ (read x) (read y)
  isLE_trans {x y z} := @TransCmp.isLE_trans _ order.compare _ (read x) (read y) (read z)

/-- A document's ORDER BY cells in a row that is null elsewhere. -/
def leadingOf (s : MemorySegment) (p : Plan) (document : Nat) : Row :=
  s.row p.nullHandling (p.expressions.take p.orderWidth) document ++
    List.replicate (p.expressions.length - p.orderWidth) .null

/-- A document's full row. -/
def fullOf (s : MemorySegment) (p : Plan) (document : Nat) : Row :=
  s.row p.nullHandling p.expressions document

theorem fullOf_eq (s : MemorySegment) (p : Plan) (document : Nat) :
    fullOf s p document = s.row p.nullHandling (p.expressions.take p.orderWidth) document ++
      s.row p.nullHandling (p.expressions.drop p.orderWidth) document := by
  rw [fullOf, MemorySegment.row, MemorySegment.row, MemorySegment.row, ← List.map_append,
    List.take_append_drop]

/-- A leading row has room for the cells that are missing. -/
theorem le_length_leadingOf (hwidth : p.orderWidth ≤ p.expressions.length) (document : Nat) :
    p.orderWidth + (p.expressions.drop p.orderWidth).length ≤ (leadingOf s p document).length := by
  simp only [leadingOf, List.length_append, MemorySegment.length_row, List.length_take,
    List.length_replicate, List.length_drop]
  omega

/-- With the cells that are missing a leading row is the full one. -/
theorem completed_leadingOf (hwidth : p.orderWidth ≤ p.expressions.length) (document : Nat) :
    (leadingOf s p document).take p.orderWidth ++
        (s.row p.nullHandling (p.expressions.drop p.orderWidth) document ++
          (leadingOf s p document).drop (p.orderWidth +
            (s.row p.nullHandling (p.expressions.drop p.orderWidth) document).length)) =
      fullOf s p document := by
  have hlead : (s.row p.nullHandling (p.expressions.take p.orderWidth) document).length =
      p.orderWidth := by
    rw [MemorySegment.length_row, List.length_take, Nat.min_eq_left hwidth]
  have hend : (leadingOf s p document).length ≤ p.orderWidth +
      (s.row p.nullHandling (p.expressions.drop p.orderWidth) document).length := by
    simp only [leadingOf, List.length_append, hlead, List.length_replicate,
      MemorySegment.length_row, List.length_drop]
    omega
  rw [List.drop_of_length_le hend, List.append_nil, fullOf_eq, leadingOf, List.take_left' hlead]

/-- The keys of a plan see the same cells in both rows. -/
theorem cellAt_leadingOf (hp : p.segment = s.segment) (hfetch : s.Fetchable p.expressions)
    (horder : p.order = .ok order) {key : Nat × Direction} (hkey : key ∈ order.keys)
    (document : Nat) :
    RowOrder.cellAt (leadingOf s p document) key.1 = RowOrder.cellAt (fullOf s p document) key.1 := by
  obtain rfl := Except.ok.inj ((order_eq hp hfetch).symm.trans horder)
  obtain ⟨hlt, -, -⟩ := mem_keysOver hkey
  have hlt' : key.1 < (s.row p.nullHandling (p.expressions.take p.orderWidth) document).length := by
    rwa [MemorySegment.length_row]
  rw [fullOf_eq, leadingOf, RowOrder.cellAt, RowOrder.cellAt, List.getElem?_append_left hlt',
    List.getElem?_append_left hlt']

/-- Leading rows are ordered as the full ones are. -/
theorem compare_leadingOf (hp : p.segment = s.segment) (hfetch : s.Fetchable p.expressions)
    (horder : p.order = .ok order) (x y : Nat) :
    order.compare (leadingOf s p x) (leadingOf s p y) =
      order.compare (fullOf s p x) (fullOf s p y) :=
  RowOrder.compareBy_congr (fun _ hkey => cellAt_leadingOf hp hfetch horder hkey x)
    fun _ hkey => cellAt_leadingOf hp hfetch horder hkey y

/-! ## The first pass -/

/-- The first pass reads the leading row of every document. -/
theorem leadingRow_ok (hp : p.segment = s.segment) (hfetch : s.Fetchable p.expressions)
    (horder : p.order = .ok order) (hwidth : p.orderWidth ≤ p.expressions.length) {view : RowView}
    {position document : Nat} (hview : view.width = p.orderWidth)
    (hrow : view.row position =
      .ok (s.row p.nullHandling (p.expressions.take p.orderWidth) document)) :
    p.leadingRow order view position = .ok (leadingOf s p document) := by
  have hfill : view.fill position 0 (List.replicate p.expressions.length .null) = _ :=
    RowView.fill_ok hrow (by rw [List.length_replicate]; omega)
  have hrow' : List.take 0 (List.replicate p.expressions.length Cell.null) ++
      (s.row p.nullHandling (p.expressions.take p.orderWidth) document ++
        List.drop (0 + (s.row p.nullHandling (p.expressions.take p.orderWidth) document).length)
          (List.replicate p.expressions.length Cell.null)) = leadingOf s p document := by
    simp [leadingOf, Nat.min_eq_left hwidth]
  have hacc : order.validate (leadingOf s p document) = .ok () := by
    rw [RowOrder.validate, RowOrder.validateBy_congr fun key hkey =>
      cellAt_leadingOf hp hfetch horder hkey document]
    exact validate_row hp hfetch horder p.nullHandling document
  rw [hrow'] at hfill
  rw [leadingRow, hfill]
  simp only [Progress.toExcept, Progress.done, bind, Except.bind, hacc]
  rfl

/-- The first pass offers the documents of a block, one by one. -/
theorem candidateStep_ok (hp : p.segment = s.segment) (hfetch : s.Fetchable p.expressions)
    (horder : p.order = .ok order) (hwidth : p.orderWidth ≤ p.expressions.length) {b : Block}
    {view : RowView} (hreads : b.Reads p.orderWidth
      (s.row p.nullHandling (p.expressions.take p.orderWidth)) view) (state : FirstPass) :
    p.candidateStep order state b = .ok ⟨b.documents.foldl
      (fun state d => offerCandidate order state d (leadingOf s p d)) state, b.size, false⟩ := by
  have hleads : ∀ pair ∈ b.documents.zipIdx,
      p.leadingRow order view pair.2 = .ok (leadingOf s p pair.1) := fun pair hpair =>
    leadingRow_ok hp hfetch horder hwidth hreads.width_eq (hreads.row_of_mem hpair)
  have hfst : b.documents.zipIdx.map Prod.fst = b.documents := by simp
  rw [candidateStep, hreads.view_eq]
  simp only [bind, Except.bind]
  rw [Except.foldlM_ok
      (g := fun state pair => offerCandidate order state pair.1 (leadingOf s p pair.1))
      fun state pair hpair => by simp only [hleads pair hpair]; rfl,
    ← List.foldl_map (f := Prod.fst)
      (g := fun state d => offerCandidate order state d (leadingOf s p d)), hfst]
  rfl

/-- **The first pass heaps the matching documents** in the order of their
rows. -/
theorem firstPass_ok (hp : p.segment = s.segment) (hfetch : s.Fetchable p.expressions)
    (horder : p.order = .ok order) (hwidth : p.orderWidth ≤ p.expressions.length) :
    ∃ scanned, (scanWith .selectionOrderBy
        (p.segment.scan (p.expressions.take p.orderWidth) p.nullHandling)
        (quietly (p.candidateStep order)) ⟨.empty p.keep, .empty⟩).value = .ok scanned ∧
      FirstPass.Tracks (leadingOf s p) scanned.state
        ((TopK.empty p.keep).offerAll (documentOrder order (leadingOf s p)) s.matching) := by
  have hleading : s.Fetchable (p.expressions.take p.orderWidth) := fun e he =>
    hfetch e (List.mem_of_mem_take he)
  obtain ⟨source, blocks, hscan, hpulls, hdocs, hreads⟩ :=
    MemorySegment.scan_delivers hleading p.nullHandling
  have hsource : p.segment.scan (p.expressions.take p.orderWidth) p.nullHandling = .ok source := by
    rw [hp]
    exact hscan
  have hfold : (scanPulls (quietly (p.candidateStep order)) ⟨.empty p.keep, .empty⟩
      (blocks.map .ok)).outcome = .ok ((blocks.flatMap Block.documents).foldl
        (fun state d => offerCandidate order state d (leadingOf s p d)) ⟨.empty p.keep, .empty⟩) := by
    refine scanPulls_whole (P := fun _ => True) (fun _ _ _ => trivial) (fun state _ b hb => ?_) trivial
    obtain ⟨view, hview⟩ := hreads b hb
    rw [List.length_take, Nat.min_eq_left hwidth] at hview
    exact ⟨b.size, candidateStep_ok hp hfetch horder hwidth hview state⟩
  rw [← hpulls, hdocs] at hfold
  obtain ⟨documents, hvalue⟩ := scanWith_value .selectionOrderBy hfold
  refine ⟨_, by rw [hsource]; exact hvalue, ?_⟩
  exact tracks_foldl (tracks_empty p.keep) s.matching

/-! ## The second pass -/

/-- The survivors' documents ascend strictly. -/
theorem ascending_survivors {candidates : List Candidate}
    (h : (candidates.map Candidate.document).Nodup) :
    ((candidates.mergeSort fun a b => decide (a.document ≤ b.document)).map
      Candidate.document).Pairwise (· < ·) := by
  have hle : (candidates.mergeSort fun a b => decide (a.document ≤ b.document)).Pairwise
      fun a b => a.document ≤ b.document := by
    refine (List.pairwise_mergeSort (fun a b c hab hbc => ?_) (fun a b => ?_) _).imp of_decide_eq_true
    · simp only [decide_eq_true_eq] at hab hbc ⊢
      omega
    · simp only [Bool.or_eq_true, decide_eq_true_eq]
      omega
  have hne := (((List.mergeSort_perm candidates fun a b => decide (a.document ≤ b.document)).map
    Candidate.document).nodup_iff).2 h
  rw [List.pairwise_map]
  exact hle.imp₂ (fun a b hab hne => Nat.lt_of_le_of_ne hab hne) (List.pairwise_map.1 hne)

/-- **The second pass completes the survivors**, in the layout of the
candidates. -/
theorem secondPass_ok (hp : p.segment = s.segment) (hfetch : s.Fetchable p.expressions)
    (hwidth : p.orderWidth ≤ p.expressions.length) {state : FirstPass} {documents : TopK Nat}
    (htracks : FirstPass.Tracks (leadingOf s p) state documents)
    (hnodup : documents.toList.Nodup) (hmatching : ∀ d ∈ documents.toList, d ∈ s.matching) :
    ∃ entries, p.secondPass state = .ok (documents.map (fullOf s p), entries) := by
  obtain ⟨heap_eq, holds, rows, -⟩ := htracks
  have hdocuments : documents.toList = state.heap.toList.map Candidate.document := by
    rw [← heap_eq, TopK.toList_map]
  have hperm := List.mergeSort_perm state.heap.toList fun a b => decide (a.document ≤ b.document)
  have hascending := ascending_survivors (hdocuments ▸ hnodup)
  generalize hsurvivors :
    (state.heap.toList.mergeSort fun a b => decide (a.document ≤ b.document)) = survivors
    at hperm hascending
  have hmem : ∀ c ∈ survivors, c ∈ state.heap.toList := fun c hc => hperm.mem_iff.1 hc
  have hset := DocSet.toList_ofList hascending
  have hrest : s.Fetchable (p.expressions.drop p.orderWidth) := fun e he =>
    hfetch e (List.mem_of_mem_drop he)
  have hlt : ∀ d ∈ (DocSet.ofList (survivors.map Candidate.document)).toList, d < s.numDocs := by
    rw [hset]
    intro d hd
    obtain ⟨c, hc, rfl⟩ := List.mem_map.1 hd
    refine MemorySegment.lt_of_mem_matching (hmatching _ ?_)
    rw [hdocuments]
    exact List.mem_map_of_mem (hmem c hc)
  obtain ⟨source, blocks, hscan, hpulls, hdocs, hreads⟩ :=
    MemorySegment.scanDocs_delivers hrest p.nullHandling hlt
  rw [hset] at hdocs
  have hplaces : (survivors.map Candidate.place).Nodup :=
    ((hperm.map Candidate.place).nodup_iff).2 holds.nodup_places
  obtain ⟨after, hafter, hcompletes⟩ : ∃ after, p.completeAll survivors state.arena
      (blocks.map .ok) = .ok (after, survivors.length) ∧
        Completes (fullOf s p) survivors state.arena after := by
    refine @completeAll_ok p (leadingOf s p) _ _ _ _ _ _ hreads hdocs.symm
      (le_length_leadingOf hwidth) (completed_leadingOf hwidth) hplaces ?_ ?_
    · intro c hc
      exact holds.lt_of_mem (List.mem_map_of_mem (hmem c hc))
    · exact fun c hc => rows c (hmem c hc)
  have hrows : after.takeAll (state.heap.toList.map Candidate.place) =
      (documents.map (fullOf s p)).toList := by
    rw [RowArena.takeAll_eq after holds.nodup_places, TopK.toList_map, hdocuments, List.map_map,
      List.map_map]
    exact List.map_congr_left fun c hc => hcompletes.rows c (hperm.mem_iff.2 hc)
  refine ⟨survivors.length * source.columnsProjected, ?_⟩
  have hsource : p.segment.scanDocs (p.expressions.drop p.orderWidth)
      (DocSet.ofList (survivors.map Candidate.document)) p.nullHandling = .ok source := by
    rw [hp]
    exact hscan
  have hmaximum : state.heap.maximum = (documents.map (fullOf s p)).maximum := by
    rw [← heap_eq]
    rfl
  simp only [secondPass, hsurvivors, bind, Except.bind, hsource, hpulls, hafter, hrows, hmaximum,
    TopK.mk_toList, ne_eq, not_true_eq_false, if_false]
  rfl

/-! ## Both -/

/-- **Two passes collect what one pass would.** -/
theorem runTwoPasses_eq (hp : p.segment = s.segment) (hfetch : s.Fetchable p.expressions)
    (horder : p.order = .ok order) (hwidth : p.orderWidth ≤ p.expressions.length) :
    ∃ stats, (p.runTwoPasses order).value =
      .ok ((s.matching.map (s.row p.nullHandling p.expressions)).foldl OrderedRows.put
        (.empty order p.keep), stats) := by
  obtain ⟨scanned, hfirst, htracks⟩ := firstPass_ok hp hfetch horder hwidth
  -- the heap of documents holds different matching ones
  have hbest := TopK.isBest_offerAll_empty (documentOrder order (leadingOf s p)) p.keep s.matching
  have hnodup := (hbest.perm.nodup_iff).1 (s.matching_ascending.imp fun h => Nat.ne_of_lt h)
  obtain ⟨entries, hsecond⟩ := secondPass_ok hp hfetch hwidth htracks hnodup.of_append_left
    fun d hd => hbest.perm.mem_iff.2 (List.mem_append_left _ hd)
  have hrows : ((TopK.empty p.keep).offerAll (documentOrder order (leadingOf s p)) s.matching).map
      (fullOf s p) = (TopK.empty p.keep).offerAll order.compare (s.matching.map (fullOf s p)) := by
    have hagree (x y : Nat) : order.compare (fullOf s p x) (fullOf s p y) =
        documentOrder order (leadingOf s p) x y := (compare_leadingOf hp hfetch horder x y).symm
    rw [TopK.offerAll_map hagree, TopK.map_empty]
  rw [hrows] at hsecond
  rw [OrderedRows.foldl_put]
  exact ⟨_, by simp only [runTwoPasses, Traced.map, hfirst, bind, Except.bind, hsecond]; rfl⟩

end Plan

end Selection

end SegmentQuery
