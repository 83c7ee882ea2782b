import SegmentQuery.Proofs.Broker.Distinct
import SegmentQuery.Proofs.Broker.Groups
import SegmentQuery.Proofs.Operator.Grouping
import SegmentQuery.Proofs.Result.Tables
import SegmentQuery.Proofs.Runs
/-!
# Combining on servers or at the broker

Segments may be spread over servers in any way: a server that combines
all of them hands on a table that the broker reduces to the same answer
as the tables of servers with one segment each. This holds for every kind
of query but ordered selections, whose ties may be broken differently.
-/


namespace SegmentQuery

variable {q : Query}

namespace Broker

/-! ## Tables -/

/-- The first row of a table is the first of its rows. -/
theorem row?_zero (t : DataTable) : t.row? 0 = t.allRows.head? := by
  rw [DataTable.row?, DataTable.allRows, List.head?_map, List.head?_eq_getElem?,
    List.getElem?_zipIdx, Option.map_map]
  rfl

/-- Tables without columns make no answer. -/
theorem resultTable_of_isEmpty {tables : List DataTable}
    (h : ∀ t ∈ tables, t.schema.isEmpty = true) : resultTable q tables = .ok .empty := by
  have hnone : tables.filter (fun t => !t.schema.isEmpty) = [] := by
    simpa [List.filter_eq_nil_iff] using h
  rw [resultTable, hnone]
  rfl

/-- Tables with columns are all reduced. -/
theorem resultTable_of_not_isEmpty {tables : List DataTable}
    (h : ∀ t ∈ tables, t.schema.isEmpty = false) : resultTable q tables = reduceTables q tables := by
  rw [resultTable, List.filter_eq_self.2 fun t ht => by rw [h t ht]; rfl]

/-- The table of a response is the answer, where there is one. -/
theorem table_reduce (tables : List DataTable) :
    (reduce q tables).table = (resultTable q tables).toOption := by
  unfold reduce
  cases resultTable q tables <;> rfl

/-- The rows of tables that show one list of rows each. -/
theorem allRows_eq_flatMap {α : Type} {f : α → List Row} {tables : List DataTable} {bs : List α}
    (h : List.Forall₂ (fun t b => t.allRows = f b) tables bs) : allRows tables = bs.flatMap f := by
  induction h with
  | nil => rfl
  | @cons t b tables bs ht _ ih =>
    unfold allRows at ih ⊢
    rw [List.flatMap_cons, List.flatMap_cons, ht, ih]

theorem allRows_singleton (t : DataTable) : allRows [t] = t.allRows := List.append_nil _

/-- The first rows of tables that show one row each. -/
theorem filterMap_row?_zero {tables : List DataTable} {rows : List Row}
    (h : List.Forall₂ (fun t row => t.allRows = [row]) tables rows) :
    tables.filterMap (·.row? 0) = rows := by
  induction h with
  | nil => rfl
  | @cons t row tables rows ht _ ih =>
    rw [List.filterMap_cons, row?_zero, ht, ih]
    rfl

/-- A schema with a column for each key and each function has columns,
unless the query has neither. -/
theorem isEmpty_schema_of_width {schema : Schema} (hcolumns : q.groupBy ≠ [] ∨ q.functions ≠ [])
    (hwidth : schema.width = q.groupBy.length + q.functions.length) : schema.isEmpty = false := by
  have hpos : 0 < q.groupBy.length + q.functions.length := by
    simpa [Nat.pos_iff_ne_zero, not_and_or] using hcolumns
  rw [← hwidth] at hpos
  exact List.isEmpty_eq_false_iff.2 (List.ne_nil_of_length_pos hpos)

/-- **The servers with segments are those whose tables have columns**,
where every server with segments hands on such a table. -/
theorem exists_busy {R : List MemorySegment → DataTable → Prop}
    {servers : List (List MemorySegment)} {tables : List DataTable}
    (htables : List.Forall₂ (fun server t =>
      DataTable.ofPartial (q.run (server.map MemorySegment.segment)).value = .ok t)
      servers tables)
    (h : ∀ server ∈ servers, ∀ t,
      DataTable.ofPartial (q.run (server.map MemorySegment.segment)).value = .ok t →
      (server = [] ∧ t.schema.isEmpty) ∨ (t.schema.isEmpty = false ∧ R server t)) :
    ∃ busy, busy.flatten = servers.flatten ∧
      List.Forall₂ R busy (tables.filter fun t => !t.schema.isEmpty) := by
  induction htables with
  | nil => exact ⟨[], rfl, .nil⟩
  | @cons server t servers tables ht _ ih =>
    obtain ⟨hserver, hservers⟩ := List.forall_mem_cons.1 h
    obtain ⟨busy, hbusy, hrest⟩ := ih hservers
    rcases hserver t ht with ⟨rfl, hempty⟩ | ⟨hcolumns, htable⟩
    · -- a server without segments counts for nothing
      rw [List.filter_cons_of_neg (by simp [hempty])]
      exact ⟨busy, hbusy, hrest⟩
    · rw [List.filter_cons_of_pos (by simp [hcolumns])]
      exact ⟨server :: busy, by rw [List.flatten_cons, List.flatten_cons, hbusy],
        .cons htable hrest⟩

/-! ## Tables of one kind of rows -/

section

variable {α : Type} {wrap : α → ResultRows} {merge : α → α → Except QueryError α} {Good : α → Prop}
variable {first r : PartialResult} {rest : List PartialResult} {whole : DataTable}
variable {parts : List DataTable}

/-- Results of one kind of rows, the tables of each, and the table of all
of them combined: the tables show what was merged and what the merges
made of it. -/
theorem exists_payloads (hne : ∀ a, wrap a ≠ .empty)
    (hmerge : ∀ a b, (q.combiner.mergeRows (wrap a) (wrap b)).toExcept.map (·.1) =
      (merge a b).map wrap)
    (hgood : ∀ p ∈ first :: rest, ∃ a, p.rows = wrap a ∧ Good a)
    (hfold : rest.foldlM q.combiner.mergeResult first = .ok r)
    (hwhole : DataTable.ofPartial r = .ok whole)
    (hparts : List.Forall₂ (fun p t => DataTable.ofPartial p = .ok t) (first :: rest) parts) :
    ∃ a as m, first.rows = wrap a ∧ (∀ b ∈ a :: as, Good b) ∧ as.foldlM merge a = .ok m ∧
      whole.schema = first.schema ∧ whole.allRows = (wrap m).rows ∧
      List.Forall₂ (fun t b => t.allRows = (wrap b).rows) parts (a :: as) := by
  obtain ⟨payloads, hpayloads⟩ := exists_forall₂ hgood
  obtain ⟨a, as, hfirst, hrest, rfl⟩ := List.forall₂_cons_left_iff.1 hpayloads
  have hmerged := Combiner.map_foldlM_mergeResult hne hmerge (hrest.imp fun _ _ h => h.1) hfirst.1
  rw [hfold] at hmerged
  obtain ⟨m, hm, heq⟩ := Except.map_eq_ok.1 hmerged.symm
  obtain ⟨hrows, hschema⟩ := DataTable.allRows_ofPartial hwhole
  obtain ⟨hschema', hrows'⟩ := Prod.mk.inj heq
  refine ⟨a, as, m, hfirst.1, fun b hb => ?_, hm, hschema.trans hschema'.symm, ?_, ?_⟩
  · obtain ⟨p, -, hp⟩ := exists_of_mem_right hpayloads hb
    exact hp.2
  · rw [hrows, hrows']
  · refine forall₂_join hparts hpayloads fun p t b ht hb => ?_
    rw [(DataTable.allRows_ofPartial ht).1, hb.1]

end

/-! ## The four kinds -/

section

variable {first r : PartialResult} {rest : List PartialResult} {whole : DataTable}
variable {parts : List DataTable}

/-- Rows cut off at a length, then more rows, cut off at that length. -/
theorem take_foldl_appendRows (limit : Nat) (rows : List Row) (more : List (List Row)) :
    (more.foldl (Combiner.appendRows limit) rows).take limit =
      (rows ++ more.flatten).take limit := by
  induction more generalizing rows with
  | nil => rw [List.foldl_nil, List.flatten_nil, List.append_nil]
  | cons next more ih =>
    rw [List.foldl_cons, ih, Combiner.appendRows, List.flatten_cons]
    rw [List.append_assoc, List.take_append, List.take_append, List.take_append, List.take_append]
    congr 1
    rw [List.take_take, Nat.min_self]
    congr 2
    rw [List.length_take]
    omega

/-- **Rows** are the same up to the number that the answer needs. -/
theorem reduceSelection_interchange (hplain : q.orderBy = []) (schema : Schema)
    (hgood : ∀ p ∈ first :: rest, ∃ rows, p.rows = .selection rows)
    (hfold : rest.foldlM q.combiner.mergeResult first = .ok r)
    (hwhole : DataTable.ofPartial r = .ok whole)
    (hparts : List.Forall₂ (fun p t => DataTable.ofPartial p = .ok t) (first :: rest) parts) :
    whole.schema = first.schema ∧
      reduceSelection q schema [whole] = reduceSelection q schema parts := by
  obtain ⟨rows, more, m, -, -, hm, hschema, hshown, hshows⟩ :=
    @exists_payloads q _ ResultRows.selection
      (fun a b => .ok (Combiner.appendRows q.options.rowsToKeep a b)) (fun _ => True) first r rest
      whole parts (fun _ => ResultRows.noConfusion) (fun _ _ => rfl)
      (fun p hp => (hgood p hp).imp fun _ h => ⟨h, trivial⟩) hfold hwhole hparts
  rw [Except.foldlM_ok fun _ _ _ => rfl] at hm
  have htake : (allRows [whole]).take q.options.rowsToKeep =
      (allRows parts).take q.options.rowsToKeep := by
    rw [allRows_singleton, hshown, allRows_eq_flatMap hshows, ← Except.ok.inj hm]
    show (more.foldl _ rows).take _ = _
    rw [take_foldl_appendRows, List.flatMap_cons]
    exact congrArg (fun tail => (rows ++ tail).take _) List.flatMap_id.symm
  have hempty : q.orderBy.isEmpty = true := by rw [hplain]; rfl
  refine ⟨hschema, ?_⟩
  rw [reduceSelection, reduceSelection, hempty, if_pos rfl, if_pos rfl, selectedRows, selectedRows,
    htake]

/-- **Aggregates** merge to the same row. -/
theorem reduceAggregation_interchange
    (hgood : ∀ p ∈ first :: rest, ∃ row, p.rows = .aggregation row)
    (hfold : rest.foldlM q.combiner.mergeResult first = .ok r)
    (hwhole : DataTable.ofPartial r = .ok whole)
    (hparts : List.Forall₂ (fun p t => DataTable.ofPartial p = .ok t) (first :: rest) parts) :
    whole.schema = first.schema ∧ reduceAggregation q [whole] = reduceAggregation q parts := by
  obtain ⟨row, more, m, -, -, hm, hschema, hshown, hshows⟩ :=
    @exists_payloads q _ ResultRows.aggregation
      (fun a b => (q.combiner.mergeAggregates a b).toExcept) (fun _ => True) first r rest whole parts
      (fun _ => ResultRows.noConfusion)
      (fun a b => by
        rw [Combiner.mergeRows, Progress.toExcept_map]
        cases (q.combiner.mergeAggregates a b).toExcept <;> rfl)
      (fun p hp => (hgood p hp).imp fun _ h => ⟨h, trivial⟩) hfold hwhole hparts
  have hone : [whole].filterMap (·.row? 0) = [m] := by
    rw [List.filterMap_cons, row?_zero, hshown]
    rfl
  have hrows : parts.filterMap (·.row? 0) = row :: more := filterMap_row?_zero hshows
  have hbroker : more.foldlM (mergeRow q.functions) row = .ok m :=
    Except.foldlM_imp (fun _ _ _ h => (mergeRow_ok h).1) hm
  refine ⟨hschema, ?_⟩
  unfold reduceAggregation
  rw [hone, hrows]
  simp only [hbroker]
  rfl

/-- **Groups** merge to the same table. -/
theorem reduceGroupBy_interchange (schema : Schema)
    (hgood : ∀ p ∈ first :: rest, ∃ t, p.rows = .groupBy t ∧ GroupTable.SoundFor q t)
    (hfold : rest.foldlM q.combiner.mergeResult first = .ok r)
    (hwhole : DataTable.ofPartial r = .ok whole)
    (hparts : List.Forall₂ (fun p t => DataTable.ofPartial p = .ok t) (first :: rest) parts) :
    whole.schema = first.schema ∧
      reduceGroupBy q schema [whole] = reduceGroupBy q schema parts := by
  obtain ⟨table, more, m, -, hsound, hm, hschema, hshown, hshows⟩ :=
    @exists_payloads q _ ResultRows.groupBy
      (fun a b => (q.combiner.mergeGroups a b).toExcept.map (·.1)) (GroupTable.SoundFor q) first r
      rest whole parts (fun _ => ResultRows.noConfusion) Combiner.mergeRows_groupBy
      hgood hfold hwhole hparts
  obtain ⟨hfirst, hrest⟩ := List.forall_mem_cons.1 hsound
  obtain ⟨hbroker, hserver⟩ := foldlM_addGroup_of_merge hfirst hrest hm
  have hgroups : mergedGroups q [whole] = mergedGroups q parts := by
    rw [mergedGroups, mergedGroups, allRows_singleton, hshown, allRows_eq_flatMap hshows]
    exact hserver.trans hbroker.symm
  refine ⟨hschema, ?_⟩
  rw [reduceGroupBy, reduceGroupBy, hgroups]

/-- What the broker shows of the distinct values that it took in. -/
theorem reduceDistinct_eq {schema : Schema} {column : String} {type : StoredType} {role : FieldKind}
    {order : Option Direction} {tables : List DataTable} {values : DistinctValues}
    (hschema : schema = ⟨[⟨column, .ofStored type, role⟩]⟩) (horder : q.distinctOrder = .ok order)
    (h : addDistinct (.new type order q.options.rowsToKeep q.options.nullHandling)
      (allRows tables) = .ok values) :
    reduceDistinct q schema tables =
      ResultTable.render schema (values.rows.drop q.options.offset) [column] := by
  rw [reduceDistinct, hschema]
  simp only [ColumnType.storedType_ofStored, ColumnType.isArray_ofStored, horder, bind,
    Except.bind, pure, Except.pure, Bool.not_false, DistinctValues.forColumn, if_true, h]

/-- **Distinct values** merge to the same collection. -/
theorem reduceDistinct_interchange {column : String} {order : Option Direction}
    (horder : q.distinctOrder = .ok order)
    (hgood : ∀ p ∈ first :: rest, ∃ type role d,
      p.schema = ⟨[⟨column, .ofStored type, role⟩]⟩ ∧ p.rows = .distinct d ∧
      d.Collects type order q.options.rowsToKeep q.options.nullHandling)
    (hfold : rest.foldlM q.combiner.mergeResult first = .ok r)
    (hwhole : DataTable.ofPartial r = .ok whole)
    (hparts : List.Forall₂ (fun p t => DataTable.ofPartial p = .ok t) (first :: rest) parts) :
    whole.schema = first.schema ∧
      reduceDistinct q first.schema [whole] = reduceDistinct q first.schema parts := by
  obtain ⟨d, more, m, hd, hcollects, hm, hwholeSchema, hshown, hshows⟩ :=
    @exists_payloads q _ ResultRows.distinct DistinctValues.merge
      (fun d => ∃ type, d.Collects type order q.options.rowsToKeep q.options.nullHandling) first r
      rest whole parts (fun _ => ResultRows.noConfusion) Combiner.mergeRows_distinct
      (fun p hp => by
        obtain ⟨type, role, d, -, hrows, hd⟩ := hgood p hp
        exact ⟨d, hrows, type, hd⟩)
      hfold hwhole hparts
  obtain ⟨type, role, d', hschema, hd', hfirst⟩ := hgood first List.mem_cons_self
  obtain rfl : d = d' := ResultRows.distinct.inj (hd.symm.trans hd')
  obtain ⟨values, values', hserver, hbroker, hsame⟩ :=
    addDistinct_of_merge hfirst (List.forall_mem_cons.1 hcollects).2 hm
  have hone : allRows [whole] = m.rows := (allRows_singleton whole).trans hshown
  have hall : allRows parts = (d :: more).flatMap DistinctValues.rows := allRows_eq_flatMap hshows
  rw [← hone] at hserver
  rw [← hall] at hbroker
  refine ⟨hwholeSchema, ?_⟩
  rw [reduceDistinct_eq hschema horder hserver, reduceDistinct_eq hschema horder hbroker, hsame]

end

/-- **Tables of one kind reduce alike.** -/
theorem reduceTables_interchange {segments : List MemorySegment}
    (hplain : q.kind = .selection → q.orderBy = [])
    (houtcomes : List.Forall₂ (fun s r => (q.runOver (MemorySegment.segment s)).value = .ok r)
      segments (first :: rest))
    (hfold : rest.foldlM q.combiner.mergeResult first = .ok r)
    (hwhole : DataTable.ofPartial r = .ok whole)
    (hparts : List.Forall₂ (fun p t => DataTable.ofPartial p = .ok t) (first :: rest) parts) :
    whole.schema = first.schema ∧ reduceTables q [whole] = reduceTables q parts := by
  have hran : ∀ p ∈ first :: rest, ∃ s, (q.runOver (MemorySegment.segment s)).value = .ok p := by
    intro p hp
    obtain ⟨s, -, hs⟩ := exists_of_mem_right houtcomes hp
    exact ⟨s, hs⟩
  obtain ⟨t, ts, ht, hts, rfl⟩ := List.forall₂_cons_left_iff.1 hparts
  have hschema := (DataTable.allRows_ofPartial ht).2
  simp only [reduceTables, hschema]
  cases hkind : q.kind with
  | selection =>
    have hgood : ∀ p ∈ first :: rest, ∃ rows, p.rows = .selection rows := by
      intro p hp
      obtain ⟨s, hs⟩ := hran p hp
      rw [Query.runOver_selection hkind (hplain hkind)] at hs
      exact (Selection.of_runUnordered hs).2
    obtain ⟨hsame, hreduce⟩ :=
      reduceSelection_interchange (hplain hkind) first.schema hgood hfold hwhole hparts
    exact ⟨hsame, by rw [hsame]; exact hreduce⟩
  | aggregation =>
    have hgood : ∀ p ∈ first :: rest, ∃ row, p.rows = .aggregation row := by
      intro p hp
      obtain ⟨s, hs⟩ := hran p hp
      rw [Query.runOver, hkind] at hs
      exact (Aggregation.of_run hs).2
    exact reduceAggregation_interchange hgood hfold hwhole hparts
  | groupBy =>
    have hgood : ∀ p ∈ first :: rest, ∃ t, p.rows = .groupBy t ∧ GroupTable.SoundFor q t := by
      intro p hp
      obtain ⟨s, hs⟩ := hran p hp
      rw [Query.runOver, hkind] at hs
      exact GroupBy.sound_run hs
    obtain ⟨hsame, hreduce⟩ := reduceGroupBy_interchange first.schema hgood hfold hwhole hparts
    exact ⟨hsame, by rw [hsame]; exact hreduce⟩
  | distinct =>
    obtain ⟨s, hs⟩ := hran first List.mem_cons_self
    obtain ⟨column, order, hcolumn, -⟩ := Query.of_runOver_distinct hkind hs
    have hgood : ∀ p ∈ first :: rest, ∃ type role d,
        p.schema = ⟨[⟨column, .ofStored type, role⟩]⟩ ∧ p.rows = .distinct d ∧
        d.Collects type order q.options.rowsToKeep q.options.nullHandling := by
      intro p hp
      obtain ⟨s, hs⟩ := hran p hp
      obtain ⟨column', order', hcolumn', hrun⟩ := Query.of_runOver_distinct hkind hs
      obtain ⟨rfl, rfl⟩ := Prod.mk.inj (Except.ok.inj (hcolumn.symm.trans hcolumn'))
      exact Distinct.collects_run hrun
    obtain ⟨hsame, hreduce⟩ :=
      reduceDistinct_interchange (Query.distinctOrder_of_distinctColumn hcolumn) hgood hfold hwhole
        hparts
    exact ⟨hsame, by rw [hsame]; exact hreduce⟩

/-- Results over segments of one table all have columns, or none has. -/
theorem isEmpty_schema {segments : List MemorySegment} {results : List PartialResult}
    (hplain : q.kind = .selection → q.orderBy = [])
    (hcolumns : segments.Pairwise MemorySegment.SameColumns)
    (houtcomes : List.Forall₂ (fun s r => (q.runOver (MemorySegment.segment s)).value = .ok r)
      segments results) {p p' : PartialResult} (hp : p ∈ results) (hp' : p' ∈ results) :
    p.schema.isEmpty = p'.schema.isEmpty := by
  obtain ⟨s, hs, hrun⟩ := exists_of_mem_right houtcomes hp
  obtain ⟨s', hs', hrun'⟩ := exists_of_mem_right houtcomes hp'
  have hnames := (MemorySegment.SameColumns.of_pairwise hcolumns hs hs').perm_columnNames
  have hwidth : p.schema.columns.length = p'.schema.columns.length :=
    (Query.width_of_runOver hplain hrun).trans
      ((q.outputWidth_congr hnames).trans (Query.width_of_runOver hplain hrun').symm)
  rw [Schema.isEmpty, Schema.isEmpty, Bool.eq_iff_iff, List.isEmpty_iff_length_eq_zero,
    List.isEmpty_iff_length_eq_zero, hwidth]

/-! ## The interchange -/

/-- **Combining on a server and reducing at the broker are
interchangeable.** For every aggregation, grouping, distinct query and
selection without an order: where a run over segments of one table leaves
no exception, so that every segment answers and every merge goes through,
the table of that run reduces to the answer that the tables of the single
segments reduce to. The answers are the same schemas and cells, or the
same failure. -/
theorem reduce_run_eq_reduce_parts (q : Query) (hplain : q.kind = .selection → q.orderBy = [])
    (segments : List MemorySegment) (hcolumns : segments.Pairwise MemorySegment.SameColumns)
    (hclean : (q.run (segments.map MemorySegment.segment)).value.exceptions = [])
    (whole : DataTable)
    (hwhole : DataTable.ofPartial (q.run (segments.map MemorySegment.segment)).value = .ok whole)
    (parts : List DataTable)
    (hparts : List.Forall₂
      (fun s t => DataTable.ofPartial (q.run [MemorySegment.segment s]).value = .ok t) segments parts) :
    resultTable q [whole] = resultTable q parts ∧
      (reduce q [whole]).table = (reduce q parts).table := by
  have hresult : resultTable q [whole] = resultTable q parts := by
    rcases Query.of_run hclean with rfl | ⟨first, rest, r, houtcomes, hfold, hrun⟩
    · -- no segment, no table with columns
      obtain rfl := List.forall₂_nil_left_iff.1 hparts
      have hempty : whole.schema = .empty := (DataTable.allRows_ofPartial hwhole).2
      have hone : ∀ t ∈ [whole], t.schema.isEmpty = true := by
        intro t ht
        rw [List.mem_singleton.1 ht, hempty]
        rfl
      rw [resultTable_of_isEmpty hone]
      rfl
    · rw [hrun] at hwhole
      have htables : List.Forall₂ (fun p t => DataTable.ofPartial p = .ok t) (first :: rest) parts :=
        forall₂_join houtcomes hparts fun s p t hp ht => Query.value_run_singleton hp ▸ ht
      obtain ⟨hschema, hreduce⟩ := reduceTables_interchange hplain houtcomes hfold hwhole htables
      have hone : ∀ t ∈ [whole], t.schema.isEmpty = first.schema.isEmpty := by
        intro t ht
        rw [List.mem_singleton.1 ht, hschema]
      have hall : ∀ t ∈ parts, t.schema.isEmpty = first.schema.isEmpty := by
        intro t ht
        obtain ⟨p, hp, hpt⟩ := exists_of_mem_right htables ht
        rw [(DataTable.allRows_ofPartial hpt).2]
        exact isEmpty_schema hplain hcolumns houtcomes hp List.mem_cons_self
      cases hempty : first.schema.isEmpty with
      | true =>
        rw [resultTable_of_isEmpty fun t ht => (hone t ht).trans hempty,
          resultTable_of_isEmpty fun t ht => (hall t ht).trans hempty]
      | false =>
        rw [resultTable_of_not_isEmpty fun t ht => (hone t ht).trans hempty,
          resultTable_of_not_isEmpty fun t ht => (hall t ht).trans hempty]
        exact hreduce
  exact ⟨hresult, by rw [table_reduce, table_reduce, hresult]⟩

/-- A segment of integers in one column. -/
def integers (values : List Int32) (h : values.length ≤ Number.bound32) : MemorySegment where
  name := "integers"
  numDocs := values.length
  columns := [⟨"k", .dimension, ⟨.single .int values, none⟩⟩]
  blockSize := 2
  sortedColumns := []
  filter := none
  numDocs_le := h
  length_columns := by simp [Column.length, ColumnValues.length]
  names_nodup := by simp
  blockSize_pos := Nat.two_pos

/-- The number of documents for each integer, but for one integer only. -/
def counted : Query where
  kind := .groupBy
  groupBy := ["k"]
  functions := [.count none]
  options := { numGroupsLimit := 1 }

theorem sameColumns_integers {values values' : List Int32} (h : values.length ≤ Number.bound32)
    (h' : values'.length ≤ Number.bound32) :
    (integers values h).SameColumns (integers values' h') := by
  intro name
  by_cases hname : name = "k"
  · rw [hname]
    rfl
  · have hne : ("k" == name) = false := by simpa using fun heq => hname heq.symm
    simp [ColumnSegment.metadata, ColumnSegment.find, integers, hne, Except.map, Except.toOption]

/-- One integer is left over, and is left out either way. -/
theorem reduce_run_eq_reduce_parts_two :
    let a := integers [1, 2] (by decide)
    let b := integers [2] (by decide)
    (counted.run [a.segment, b.segment]).value.exceptions = [] ∧ ∃ whole left right,
      DataTable.ofPartial (counted.run [a.segment, b.segment]).value = .ok whole ∧
      DataTable.ofPartial (counted.run [a.segment]).value = .ok left ∧
      DataTable.ofPartial (counted.run [b.segment]).value = .ok right ∧
      (reduce counted [whole]).table = (reduce counted [left, right]).table := by
  intro a b
  have hclean : (counted.run [a.segment, b.segment]).value.exceptions = [] := by decide +kernel
  have htable {x : Except QueryError DataTable} (h : x.isOk = true) : ∃ t, x = .ok t := by
    cases x with
    | error e => exact nomatch h
    | ok t => exact ⟨t, rfl⟩
  obtain ⟨whole, hwhole⟩ := @htable (DataTable.ofPartial
    (counted.run [a.segment, b.segment]).value) (by decide +kernel)
  obtain ⟨left, hleft⟩ := @htable (DataTable.ofPartial (counted.run [a.segment]).value)
    (by decide +kernel)
  obtain ⟨right, hright⟩ := @htable (DataTable.ofPartial (counted.run [b.segment]).value)
    (by decide +kernel)
  refine ⟨hclean, whole, left, right, hwhole, hleft, hright, ?_⟩
  exact (reduce_run_eq_reduce_parts counted (fun h => nomatch h) [a, b]
    (List.pairwise_pair.2 (sameColumns_integers _ _)) hclean whole hwhole [left, right]
    (.cons hleft (.cons hright .nil))).2

end Broker

end SegmentQuery
