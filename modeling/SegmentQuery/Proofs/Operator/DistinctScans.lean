import SegmentQuery.Proofs.Distinct.Shown
import SegmentQuery.Proofs.Operator.Distinct
import SegmentQuery.Proofs.Segment.Scans
/-!
# The values that a scan collects

A scan for distinct values takes in the values of all matching documents,
or stops when no further one can count. Either way its collection shows
what the values of all matching documents make.
-/


namespace SegmentQuery

variable {type : StoredType} {order : Option Direction} {limit : Nat} {nullHandling : Bool}

/-- A cell as a distinct value. -/
def Cell.distinctValue (c : Cell) : Option Key := if c.isNull then none else some c.key

theorem StoredType.isNull_cell (t : StoredType) (v : t.Element) : (t.cell v).isNull = false := by
  cases t <;> rfl

namespace DistinctValues

variable {d : DistinctValues} {c : Column}

/-- A value read from a batch is that of the document in the column. -/
theorem readAt_delivered (hsingle : c.isSingleValue = true) {documents : List Nat}
    (hlt : ∀ n ∈ documents, n < c.length) (hlen : documents.length ≤ Number.bound32)
    (htype : d.type = c.type) {position : Nat} (hp : position < documents.length) :
    d.readAt (c.delivered d.nullHandling documents) position =
      .ok (c.cellOf d.nullHandling documents[position]).distinctValue := by
  obtain ⟨values, nulls⟩ := c
  cases values with
  | multi t vs => exact nomatch hsingle
  | single t vs =>
    obtain rfl : d.type = t := htype
    have hdoc : documents[position] < vs.length := hlt _ (List.getElem_mem hp)
    have hvalues : ((Column.mk (.single d.type vs) nulls).delivered d.nullHandling documents).values =
        .single d.type (documents.filterMap (vs[·]?)) := by
      cases d.nullHandling <;> rfl
    have hnull : (d.nullHandling &&
        ((Column.mk (.single d.type vs) nulls).delivered d.nullHandling documents).isNull position) =
          (d.nullHandling && (Column.mk (.single d.type vs) nulls).isNull documents[position]) := by
      cases d.nullHandling with
      | false => rfl
      | true =>
        rw [Bool.true_and, Bool.true_and]
        exact Column.isNull_select hlen hp
    rw [readAt, hnull, hvalues, Column.cellOf]
    simp only [Column.getElem?_filterMap_getElem? hlt hp, List.getElem?_eq_getElem hdoc, if_true,
      Option.map_some, Option.getD_some]
    split
    · rfl
    · rw [Cell.distinctValue, StoredType.isNull_cell]
      rfl

/-- **What a fresh collection shows that took in some values.** -/
theorem values_foldl_add_new (values : List (Option Key)) :
    (values.foldl DistinctValues.add (new type order limit nullHandling)).values =
      shown limit order values := by
  have hnew := @collects_new type order limit nullHandling
  have hshown := (hnew.sound.foldl_add values).2
  rwa [hnew.limit_eq, hnew.order_eq, values_new, foldl_keep_nil] at hshown

/-- Positions that all read as values are taken in as those values; a
saturated collection may leave the last ones out. -/
theorem processFrom_ok {f : Nat → Option Key} {positions : List Nat}
    (hread : ∀ d' : DistinctValues, d'.type = d.type → d'.nullHandling = d.nullHandling →
      ∀ p ∈ positions, d'.readAt c p = .ok (f p)) :
    processFrom c d positions = .done ((positions.map f).foldl add d) := by
  induction positions generalizing d with
  | nil => rfl
  | cons p positions ih =>
    rw [processFrom, hread d rfl rfl p List.mem_cons_self, List.map_cons, List.foldl_cons]
    show (if (d.add (f p)).isSaturated then _ else _) = _
    by_cases hfull : (d.add (f p)).isSaturated = true
    · rw [if_pos hfull, foldl_add_of_isSaturated hfull]
    · rw [if_neg hfull]
      refine ih fun d' htype hnulls p' hp' => hread d' ?_ ?_ p' (List.mem_cons_of_mem _ hp')
      · rw [htype, type_add]
      · rw [hnulls, nullHandling_add]

end DistinctValues

namespace MemorySegment

/-- The values of a column in the matching documents, in document
order. -/
def valuesOf (s : MemorySegment) (nullHandling : Bool) (column : String) : List (Option Key) :=
  s.matching.map fun document => (s.cell nullHandling document column).distinctValue

end MemorySegment

namespace Distinct

open DistinctValues

variable {s : MemorySegment} {d : DistinctValues} {c : MemoryColumn} {column : String}

/-- **A block's documents are taken in** as their values in the column. -/
theorem step_block (hmem : c ∈ s.columns) (hsingle : c.column.isSingleValue = true)
    (htype : d.type = c.column.type) {batch : List Nat} (hlt : ∀ n ∈ batch, n < s.numDocs)
    (hlen : batch.length ≤ Number.bound32) :
    step d (MemorySegment.block [c] d.nullHandling batch) =
      let values := (batch.map fun n => (c.column.cellOf d.nullHandling n).distinctValue).foldl
        DistinctValues.add d
      .ok ⟨values, batch.length, values.isSaturated⟩ := by
  have hnum := s.length_columns c hmem
  have hlt' : ∀ n ∈ batch, n < c.column.length := hnum.symm ▸ hlt
  have hlength : (c.column.delivered d.nullHandling batch).length = batch.length := by
    have hvalues : (c.column.delivered d.nullHandling batch).values =
        c.column.values.select batch := by
      cases d.nullHandling <;> rfl
    rw [Column.length, hvalues]
    exact ColumnValues.length_select hlt'
  have hpositions : (List.range batch.length).map (fun p =>
      (c.column.cellOf d.nullHandling (batch[p]?.getD 0)).distinctValue) =
      batch.map fun n => (c.column.cellOf d.nullHandling n).distinctValue := by
    apply List.ext_getElem (by simp)
    intro p hp _
    have hp' : p < batch.length := by simpa using hp
    simp [hp']
  have hprocess : d.process (c.column.delivered d.nullHandling batch) batch.length = .done
      ((batch.map fun n => (c.column.cellOf d.nullHandling n).distinctValue).foldl
        DistinctValues.add d) := by
    rw [process, hlength, Nat.min_self, ← hpositions]
    refine processFrom_ok fun d' htype' hnulls p hp => ?_
    have hp' : p < batch.length := List.mem_range.1 hp
    rw [← hnulls, readAt_delivered hsingle hlt' hlen (htype'.trans htype) hp', List.getElem?_eq_getElem hp', Option.getD_some]
  have hcolumn : (MemorySegment.block [c] d.nullHandling batch).column 0 =
      .ok (c.column.delivered d.nullHandling batch) := rfl
  have hsize : (MemorySegment.block [c] d.nullHandling batch).size = batch.length := rfl
  rw [step, hcolumn, hsize]
  show (do
    let values ← (d.process (c.column.delivered d.nullHandling batch) batch.length).toExcept
    return (⟨values, batch.length, values.isSaturated⟩ : Visit DistinctValues)) = _
  rw [hprocess]
  rfl

/-- **A scan takes in the values of its documents**, all of them or as far
as they can count. -/
theorem outcome_step (hmem : c ∈ s.columns) (hsingle : c.column.isSingleValue = true)
    (htype : d.type = c.column.type) {batches : List (List Nat)}
    (hbatches : ∀ batch ∈ batches, (∀ n ∈ batch, n < s.numDocs) ∧ batch.length ≤ Number.bound32) :
    (scanPulls (quietly step) d
        ((batches.map (MemorySegment.block [c] d.nullHandling)).map .ok)).outcome =
      .ok ((batches.flatten.map fun n => (c.column.cellOf d.nullHandling n).distinctValue).foldl
        DistinctValues.add d) := by
  induction batches generalizing d with
  | nil => rfl
  | cons batch batches ih =>
    obtain ⟨⟨hlt, hlen⟩, hrest⟩ := List.forall_mem_cons.1 hbatches
    rw [List.map_cons, List.map_cons, scanPulls, quietly, step_block hmem hsingle htype hlt hlen,
      List.flatten_cons, List.map_append, List.foldl_append]
    simp only [Traced.silent, ScanRun.after]
    by_cases hfull : ((batch.map fun n =>
        (c.column.cellOf d.nullHandling n).distinctValue).foldl DistinctValues.add d).isSaturated = true
    · rw [if_pos hfull, foldl_add_of_isSaturated hfull]
      rfl
    · rw [if_neg hfull]
      have hnext := ih ((type_foldl_add (batch.map fun n =>
        (c.column.cellOf d.nullHandling n).distinctValue)).trans htype) hrest
      rwa [nullHandling_foldl_add] at hnext

/-- **A scan of one column** takes in the values of the matching
documents. -/
theorem exists_scan_values (hfind : s.find column = .ok c) (hsingle : c.column.isSingleValue = true)
    (htype : d.type = c.column.type) :
    ∃ source, s.segment.scan [column] d.nullHandling = .ok source ∧
      (scanPulls (quietly step) d source.pulls).outcome =
        .ok ((s.valuesOf d.nullHandling column).foldl DistinctValues.add d) := by
  obtain ⟨hmem, hname⟩ := MemorySegment.find_name hfind
  have hcolumns : [column].mapM s.find = .ok [c] := by
    rw [Except.mapM_eq_ok]
    exact .cons hfind .nil
  obtain ⟨source, batches, hscan, hpulls, hdocuments, -⟩ :=
    MemorySegment.exists_scan hcolumns d.nullHandling
  have hbatches : ∀ batch ∈ batches, (∀ n ∈ batch, n < s.numDocs) ∧
      batch.length ≤ Number.bound32 := fun batch hbatch =>
    (MemorySegment.of_mem_batches hdocuments hbatch).imp_left fun h n hn =>
      MemorySegment.lt_of_mem_matching (h n hn)
  have hvalues : batches.flatten.map (fun n => (c.column.cellOf d.nullHandling n).distinctValue) =
      s.valuesOf d.nullHandling column := by
    rw [hdocuments, MemorySegment.valuesOf]
    simp only [MemorySegment.cell, hfind]
  refine ⟨source, hscan, ?_⟩
  rw [hpulls, ← hvalues]
  exact outcome_step hmem hsingle htype hbatches

/-- A run over a single-value column. -/
theorem run_ok {options : Options} (hfind : s.find column = .ok c)
    (hsingle : c.column.isSingleValue = true) :
    ∃ stats, (run s.segment column order options).value = .ok
      ⟨⟨[⟨column, .ofStored c.column.type, c.role⟩]⟩, .distinct
        ((s.valuesOf options.nullHandling column).foldl DistinctValues.add
          (new c.column.type order options.rowsToKeep options.nullHandling)), stats, []⟩ := by
  obtain ⟨source, hscan, houtcome⟩ := @exists_scan_values s
    (new c.column.type order options.rowsToKeep options.nullHandling) c column hfind hsingle rfl
  obtain ⟨documents, hscanned⟩ := scanWith_value .distinct houtcome
  have hmetadata : s.segment.metadata column =
      .ok ⟨c.name, c.column.type, c.column.isSingleValue, c.role⟩ := by
    show (s.find column).map _ = _
    rw [hfind]
    rfl
  have hscan' : s.segment.scan [column] options.nullHandling = .ok source := hscan
  rw [run, hmetadata, hscan']
  simp only [bind, Except.bind, ColumnMetadata.columnType, hsingle, if_true, forColumn, pure,
    Except.pure, Traced.map, hscanned, Except.map]
  exact ⟨_, rfl⟩

/-- **A segment collects the values of its matching documents.** -/
theorem values_of_segment {options : Options} (hfind : s.find column = .ok c)
    (hsingle : c.column.isSingleValue = true) :
    ∃ r d, (run s.segment column order options).value = .ok r ∧
      r.schema = ⟨[⟨column, .ofStored c.column.type, c.role⟩]⟩ ∧ r.rows = .distinct d ∧
      Collects c.column.type order options.rowsToKeep options.nullHandling d ∧
      d.values = shown options.rowsToKeep order (s.valuesOf options.nullHandling column) := by
  obtain ⟨stats, hrun⟩ := @run_ok order s c column options hfind hsingle
  obtain ⟨type', role', d', -, hrows, hcollects⟩ := collects_run hrun
  obtain rfl := ResultRows.distinct.inj hrows
  obtain rfl : c.column.type = type' := (type_foldl_add _).symm.trans hcollects.type_eq
  refine ⟨_, _, hrun, rfl, rfl, hcollects, ?_⟩
  exact values_foldl_add_new _

end Distinct

end SegmentQuery
