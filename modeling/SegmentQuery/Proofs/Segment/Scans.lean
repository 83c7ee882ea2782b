import SegmentQuery.Proofs.Segment.Cells
import SegmentQuery.Segment.Memory
/-!
# The rows that scans deliver

`MemorySegment.row` is the row of a document under some expressions. A
scan delivers exactly the rows of the matching documents in document
order, cut into blocks, and `scanDocs` those of the documents it is asked
for.
-/


namespace SegmentQuery

/-! ## Reading blocks -/

/-- Every position of the block reads as the row that `read` has for its
document. -/
structure Block.Reads (b : Block) (width : Nat) (read : Nat → Row) (view : RowView) : Prop where
  view_eq : RowView.ofColumns b.columns = .ok view
  width_eq : view.width = width
  row_eq : ∀ (position : Nat) (hp : position < b.documents.length),
    view.row position = .ok (read b.documents[position])

/-- The documents of a block, each with its position, read as their
rows. -/
theorem Block.Reads.row_of_mem {b : Block} {width : Nat} {read : Nat → Row} {view : RowView}
    (h : b.Reads width read view) {pair : Nat × Nat} (hpair : pair ∈ b.documents.zipIdx) :
    view.row pair.2 = .ok (read pair.1) := by
  have hget := List.mem_zipIdx_iff_getElem?.1 hpair
  obtain ⟨hposition, hdocument⟩ := List.getElem?_eq_some_iff.1 hget
  rw [h.row_eq pair.2 hposition, hdocument]

/-- The first documents of a block read as their rows. -/
theorem Block.Reads.mapM_row {b : Block} {width : Nat} {read : Nat → Row} {view : RowView}
    (h : b.Reads width read view) {n : Nat} (hn : n ≤ b.documents.length) :
    (List.range n).mapM view.row = .ok ((b.documents.take n).map read) := by
  refine Except.mapM_eq_ok.2 (List.forall₂_iff_get.2 ⟨?_, fun i hi hi' => ?_⟩)
  · rw [List.length_range, List.length_map, List.length_take, Nat.min_eq_left hn]
  · simp only [List.get_eq_getElem, List.getElem_range, List.getElem_map, List.getElem_take]
    rw [List.length_range] at hi
    exact h.row_eq i (by omega)

/-- **Filling writes the row of a document into a buffer** and leaves the
cells around it alone. -/
theorem RowView.fill_ok {v : RowView} {position start : Nat} {row buffer : Row}
    (hrow : v.row position = .ok row) (hfit : start + v.width ≤ buffer.length) :
    v.fill position start buffer =
      .done (buffer.take start ++ (row ++ buffer.drop (start + row.length))) := by
  obtain ⟨columns⟩ := v
  rw [RowView.fill, if_pos hfit]
  simp only [RowView.row, Except.mapM_eq_ok, RowView.width] at hrow hfit
  induction hrow generalizing start buffer with
  | nil => simp [Progress.foldl]
  | @cons column cell columns row hcell _ ih =>
    rw [List.length_cons] at hfit
    have hlt : start < buffer.length := by omega
    have hrest := @ih (start + 1) (buffer.set start cell) (by rw [List.length_set]; omega)
    rw [List.zipIdx_cons, Progress.foldl]
    simp only [hcell, Progress.done] at hrest ⊢
    refine hrest.trans ?_
    congr 1
    rw [List.take_succ_eq_append_getElem (by simpa using hlt), List.getElem_set_self,
      List.take_set_of_le (Nat.le_refl start), List.drop_set_of_lt (by omega), List.append_assoc,
      List.length_cons, show start + 1 + row.length = start + (row.length + 1) by omega]
    rfl

namespace MemorySegment

/-! ## Rows -/

/-- The cell of a document in a named column. -/
def cell (s : MemorySegment) (nullHandling : Bool) (document : Nat) (name : String) : Cell :=
  match s.find name with
  | .ok c => c.column.cellOf nullHandling document
  | .error _ => .null

/-- The row of a document under some expressions. -/
def row (s : MemorySegment) (nullHandling : Bool) (expressions : List String) (document : Nat) :
    Row :=
  expressions.map (s.cell nullHandling document)

/-- Whether the expressions name columns whose values cells can hold. -/
def Fetchable (s : MemorySegment) (expressions : List String) : Prop :=
  ∀ e ∈ expressions, ∃ c, s.find e = .ok c ∧ c.column.Readable

@[simp] theorem length_row (s : MemorySegment) (nullHandling : Bool) (expressions : List String)
    (document : Nat) : (s.row nullHandling expressions document).length = expressions.length :=
  List.length_map _

/-! ## The documents of a scan -/

theorem matching_ascending (s : MemorySegment) : s.matching.Pairwise (· < ·) := by
  cases hfilter : s.filter with
  | some documents =>
    rw [matching_of_some hfilter]
    exact documents.ascending.filter _
  | none =>
    rw [matching_of_none hfilter]
    exact List.pairwise_lt_range

theorem lt_of_mem_matching {s : MemorySegment} {d : Nat} (h : d ∈ s.matching) : d < s.numDocs := by
  cases hfilter : s.filter with
  | some documents =>
    rw [matching_of_some hfilter] at h
    exact of_decide_eq_true (List.mem_filter.1 h).2
  | none =>
    rw [matching_of_none hfilter] at h
    exact List.mem_range.1 h

/-- A scan visits no more documents than can be numbered. -/
theorem length_matching_le (s : MemorySegment) : s.matching.length ≤ Number.bound32 :=
  Nat.le_trans (DocSet.length_le_of_ascending s.matching_ascending fun _ => lt_of_mem_matching)
    s.numDocs_le

end MemorySegment

/-! ## Batches -/

namespace MemoryScan

/-- **One step of a scan** delivers a batch from the front of the documents
that are left, unless none is. -/
theorem next?_cases (scan : MemoryScan) :
    (scan.next? = none ∧ scan.documents.drop scan.cursor = []) ∨
    ∃ batch after, scan.next? =
        some (MemorySegment.block scan.columns scan.nullHandling batch, after) ∧
      after = { scan with cursor := after.cursor } ∧
      scan.documents.drop scan.cursor = batch ++ after.documents.drop after.cursor ∧
      batch ≠ [] ∧ batch.length ≤ scan.blockSize := by
  have hpos := scan.blockSize_pos
  unfold next?
  split
  · rename_i hlt
    refine .inr ⟨_, _, rfl, rfl, ?_, ?_, ?_⟩
    · dsimp only
      rw [show min (scan.cursor + scan.blockSize) scan.documents.length = scan.cursor +
        (min (scan.cursor + scan.blockSize) scan.documents.length - scan.cursor) by omega,
        ← List.drop_drop, Nat.add_sub_cancel_left, List.take_append_drop]
    · rw [← List.length_pos_iff, List.length_take, List.length_drop]
      omega
    · rw [List.length_take]
      omega
  · rename_i hend
    exact .inl ⟨rfl, List.drop_eq_nil_of_le (Nat.not_lt.1 hend)⟩

/-- **A whole scan** delivers the documents that are left, batch by batch. -/
theorem exists_batches (scan : MemoryScan) : ∃ batches : List (List Nat),
    scan.blocks = batches.map (MemorySegment.block scan.columns scan.nullHandling) ∧
      batches.flatten = scan.documents.drop scan.cursor ∧
      ∀ batch ∈ batches, batch ≠ [] ∧ batch.length ≤ scan.blockSize := by
  fun_induction blocks scan with
  | case1 scan hnext =>
    obtain ⟨-, hnil⟩ | ⟨_, _, hsome, -⟩ := scan.next?_cases
    · exact ⟨[], rfl, hnil.symm, by simp⟩
    · rw [hnext] at hsome
      exact nomatch hsome
  | case2 scan block after hnext ih =>
    obtain ⟨hnone, -⟩ | ⟨batch, after', hsome, hafter, hdrop, hbatch⟩ := scan.next?_cases
    · rw [hnext] at hnone
      exact nomatch hnone
    · rw [hnext] at hsome
      obtain ⟨rfl, rfl⟩ := Prod.mk.inj (Option.some.inj hsome)
      obtain ⟨batches, hblocks, hflatten, hbatches⟩ := ih
      refine ⟨batch :: batches, ?_, ?_, ?_⟩
      · rw [List.map_cons, hblocks, hafter]
      · rw [List.flatten_cons, hflatten, hdrop]
      · rw [hafter] at hbatches
        exact List.forall_mem_cons.2 ⟨hbatch, hbatches⟩

end MemoryScan

namespace ColumnSegment

/-- A column is found under its name. -/
theorem find_name {s : ColumnSegment} {name : String} {c : MemoryColumn}
    (h : s.find name = .ok c) : c ∈ s.columns ∧ c.name = name := by
  unfold find at h
  split at h
  · rename_i found hfind
    obtain rfl : found = c := by simpa using h
    exact ⟨List.mem_of_find?_eq_some hfind, by simpa using List.find?_some hfind⟩
  · exact absurd h (by simp)

/-- **A source over some documents** pulls blocks of the columns it was
asked for, over batches that make up the documents. -/
theorem of_source {s : ColumnSegment} {expressions : List String} {documents : List Nat}
    {entriesInFilter : Nat} {nullHandling : Bool} {source : BlockSource}
    (h : s.source expressions documents entriesInFilter nullHandling = .ok source) :
    ∃ (columns : List MemoryColumn) (batches : List (List Nat)),
      expressions.mapM s.find = .ok columns ∧
      source.pulls = (batches.map (block columns nullHandling)).map .ok ∧
      batches.flatten = documents ∧ ∀ batch ∈ batches, batch ≠ [] ∧ batch.length ≤ s.blockSize := by
  obtain ⟨scan, hstart, hsource⟩ := Except.bind_eq_ok.1 h
  obtain ⟨batches, hblocks, hflatten, hbatches⟩ := scan.exists_batches
  obtain ⟨columns, hcolumns, hscan⟩ := Except.bind_eq_ok.1 hstart
  obtain rfl := Except.ok.inj hscan
  obtain rfl := Except.ok.inj hsource
  exact ⟨columns, batches, hcolumns, congrArg (List.map Except.ok) hblocks, hflatten, hbatches⟩

/-- Known columns have a source. -/
theorem exists_source {s : ColumnSegment} {expressions : List String} {columns : List MemoryColumn}
    (hcolumns : expressions.mapM s.find = .ok columns) (documents : List Nat)
    (entriesInFilter : Nat) (nullHandling : Bool) :
    ∃ source, s.source expressions documents entriesInFilter nullHandling = .ok source := by
  rw [ColumnSegment.source, startScan, hcolumns]
  exact ⟨_, rfl⟩

/-- The blocks of some batches hold the batches' documents. -/
theorem flatMap_documents (columns : List MemoryColumn) (nullHandling : Bool)
    (batches : List (List Nat)) :
    (batches.map (block columns nullHandling)).flatMap Block.documents = batches.flatten := by
  rw [List.flatMap_map]
  exact List.flatMap_id'

end ColumnSegment

namespace MemorySegment

export ColumnSegment (find_name of_source exists_source flatMap_documents)

/-! ## Blocks -/

/-- **A block of a segment's columns reads as its documents' rows.** -/
theorem reads_block {s : MemorySegment} {expressions : List String}
    (hfetch : s.Fetchable expressions) {columns : List MemoryColumn}
    (hcolumns : expressions.mapM s.find = .ok columns) (nullHandling : Bool)
    {documents : List Nat} (hlt : ∀ d ∈ documents, d < s.numDocs)
    (hlen : documents.length ≤ Number.bound32) :
    ∃ view, (block columns nullHandling documents).Reads expressions.length
      (s.row nullHandling expressions) view := by
  rw [Except.mapM_eq_ok] at hcolumns
  -- column by column
  obtain ⟨views, hviews, hwidth, hrows⟩ : ∃ views : List CellColumn,
      (columns.map fun c => c.column.delivered nullHandling documents).mapM CellColumn.ofColumn =
          .ok views ∧
        views.length = expressions.length ∧
        ∀ (position : Nat) (hp : position < documents.length),
          views.mapM (·.cell position) = .ok (s.row nullHandling expressions documents[position]) := by
    induction hcolumns with
    | nil => exact ⟨[], rfl, rfl, fun _ _ => rfl⟩
    | @cons e c expressions columns hfind hrest ih =>
      obtain ⟨⟨c', hfind', hread⟩, hfetch⟩ := List.forall_mem_cons.1 hfetch
      obtain rfl : c = c' := Except.ok.inj (hfind.symm.trans hfind')
      have hnum := s.length_columns c (find_name hfind).1
      obtain ⟨view, hview, hcell⟩ := Column.ofColumn_delivered hread (by rwa [hnum]) hlen
        nullHandling
      obtain ⟨views, hviews, hwidth, hrows⟩ := ih hfetch
      refine ⟨view :: views, ?_, by simp [hwidth], fun position hp => ?_⟩
      · rw [Except.mapM_eq_ok] at hviews ⊢
        exact .cons hview hviews
      · have := hrows position hp
        rw [Except.mapM_eq_ok] at this ⊢
        refine .cons ?_ this
        rw [hcell position hp, cell, hfind]
  refine ⟨⟨views⟩, ?_, hwidth, hrows⟩
  exact Except.map_eq_ok.2 ⟨views, hviews, rfl⟩

/-- A source over documents of the segment delivers their rows. -/
theorem source_delivers {s : MemorySegment} {expressions : List String}
    (hfetch : s.Fetchable expressions) (nullHandling : Bool) {documents : List Nat}
    (hasc : documents.Pairwise (· < ·)) (hlt : ∀ d ∈ documents, d < s.numDocs)
    (entriesInFilter : Nat) :
    ∃ (source : BlockSource) (blocks : List Block),
      s.source expressions documents entriesInFilter nullHandling = .ok source ∧
      source.pulls = blocks.map .ok ∧ blocks.flatMap Block.documents = documents ∧
      ∀ b ∈ blocks, ∃ view, b.Reads expressions.length (s.row nullHandling expressions) view := by
  obtain ⟨_, hfound⟩ := Except.exists_mapM_ok.2 fun e he => (hfetch e he).imp fun _ h => h.1
  obtain ⟨source, hsource⟩ := exists_source hfound documents entriesInFilter nullHandling
  obtain ⟨columns, batches, hcolumns, hpulls, hflatten, -⟩ := of_source hsource
  refine ⟨source, batches.map (block columns nullHandling), hsource, hpulls, ?_, ?_⟩
  · rw [flatMap_documents, hflatten]
  · intro b hb
    obtain ⟨batch, hbatch, rfl⟩ := List.mem_map.1 hb
    have hsub : batch.Sublist documents := hflatten ▸ List.sublist_flatten_of_mem hbatch
    have hlt' : ∀ d ∈ batch, d < s.numDocs := fun d hd => hlt d (hsub.subset hd)
    have hlen := DocSet.length_le_of_ascending (hasc.sublist hsub) hlt'
    exact reads_block hfetch hcolumns nullHandling hlt' (Nat.le_trans hlen s.numDocs_le)

/-- **A scan delivers the rows of the matching documents**, in document
order. -/
theorem scan_delivers {s : MemorySegment} {expressions : List String}
    (hfetch : s.Fetchable expressions) (nullHandling : Bool) :
    ∃ (source : BlockSource) (blocks : List Block),
      s.scan expressions nullHandling = .ok source ∧
      source.pulls = blocks.map .ok ∧ blocks.flatMap Block.documents = s.matching ∧
      ∀ b ∈ blocks, ∃ view, b.Reads expressions.length (s.row nullHandling expressions) view :=
  s.scan_eq expressions nullHandling ▸
    source_delivers hfetch nullHandling s.matching_ascending (fun _ => lt_of_mem_matching) _

/-! ## The blocks of a scan -/

/-- **What a scan pulls** are blocks of the columns it was asked for, over
batches that make up the matching documents. -/
theorem of_scan {s : MemorySegment} {expressions : List String} {nullHandling : Bool}
    {source : BlockSource} (h : s.scan expressions nullHandling = .ok source) :
    ∃ (columns : List MemoryColumn) (batches : List (List Nat)),
      expressions.mapM s.find = .ok columns ∧
      source.pulls = (batches.map (block columns nullHandling)).map .ok ∧
      batches.flatten = s.matching := by
  rw [scan_eq] at h
  obtain ⟨columns, batches, hcolumns, hpulls, hflatten, -⟩ := of_source h
  exact ⟨columns, batches, hcolumns, hpulls, hflatten⟩

/-- **Known columns can be scanned.** -/
theorem exists_scan {s : MemorySegment} {expressions : List String} {columns : List MemoryColumn}
    (hcolumns : expressions.mapM s.find = .ok columns) (nullHandling : Bool) :
    ∃ (source : BlockSource) (batches : List (List Nat)),
      s.scan expressions nullHandling = .ok source ∧
      source.pulls = (batches.map (block columns nullHandling)).map .ok ∧
      batches.flatten = s.matching ∧ ∀ batch ∈ batches, batch ≠ [] := by
  obtain ⟨source, hsource⟩ := exists_source hcolumns s.matching
    (if s.filter.isSome then s.numDocs else 0) nullHandling
  obtain ⟨_, batches, hsame, hpulls, hflatten, hbatches⟩ := of_source hsource
  obtain rfl := Except.ok.inj (hsame.symm.trans hcolumns)
  exact ⟨source, batches, (s.scan_eq expressions nullHandling).trans hsource, hpulls, hflatten,
    fun batch hbatch => (hbatches batch hbatch).1⟩

/-- A batch of a scan holds matching documents, no more than documents can
be numbered. -/
theorem of_mem_batches {s : MemorySegment} {batches : List (List Nat)}
    (h : batches.flatten = s.matching) {batch : List Nat} (hbatch : batch ∈ batches) :
    (∀ d ∈ batch, d ∈ s.matching) ∧ batch.length ≤ Number.bound32 := by
  have hsub : batch.Sublist s.matching := h ▸ List.sublist_flatten_of_mem hbatch
  have hlen := DocSet.length_le_of_ascending (s.matching_ascending.sublist hsub)
    fun d hd => lt_of_mem_matching (hsub.subset hd)
  exact ⟨hsub.subset, Nat.le_trans hlen s.numDocs_le⟩

/-- A block whose columns can be viewed reads as its documents' rows. -/
theorem reads_of_view {s : MemorySegment} {expressions : List String}
    {columns : List MemoryColumn} (hcolumns : expressions.mapM s.find = .ok columns)
    {nullHandling : Bool} {documents : List Nat} (hdocuments : ∀ d ∈ documents, d ∈ s.matching)
    (hlen : documents.length ≤ Number.bound32) {view : RowView}
    (hview : RowView.ofColumns (block columns nullHandling documents).columns = .ok view) :
    s.Fetchable expressions ∧ (block columns nullHandling documents).Reads expressions.length
      (s.row nullHandling expressions) view := by
  have hfetch : s.Fetchable expressions := by
    obtain ⟨views, hviews, -⟩ := Except.map_eq_ok.1 hview
    have hfound := Except.mapM_eq_ok.1 hcolumns
    have hread := List.forall₂_map_left_iff.1 (Except.mapM_eq_ok.1 hviews)
    intro e he
    obtain ⟨c, hc, hfind⟩ := exists_of_mem_right hfound.flip he
    obtain ⟨cells, -, hcells⟩ := exists_of_mem_right hread.flip hc
    exact ⟨c, hfind, Column.readable_of_delivered hcells⟩
  obtain ⟨view', hreads⟩ := reads_block hfetch hcolumns nullHandling
    (fun d hd => lt_of_mem_matching (hdocuments d hd)) hlen
  obtain rfl := Except.ok.inj (hview.symm.trans hreads.view_eq)
  exact ⟨hfetch, hreads⟩

/-- A scan of documents of the segment delivers their rows. -/
theorem scanDocs_delivers {s : MemorySegment} {expressions : List String}
    (hfetch : s.Fetchable expressions) (nullHandling : Bool) {documents : DocSet}
    (hlt : ∀ d ∈ documents.toList, d < s.numDocs) :
    ∃ (source : BlockSource) (blocks : List Block),
      s.scanDocs expressions documents nullHandling = .ok source ∧
      source.pulls = blocks.map .ok ∧ blocks.flatMap Block.documents = documents.toList ∧
      ∀ b ∈ blocks, ∃ view, b.Reads expressions.length (s.row nullHandling expressions) view := by
  have hsource := source_delivers hfetch nullHandling documents.ascending hlt 0
  unfold ColumnSegment.scanDocs
  split
  · rename_i last hmax
    have hlast := hlt last (List.mem_of_getLast? hmax)
    rw [if_neg (by omega)]
    exact hsource
  · exact hsource

end MemorySegment

end SegmentQuery
