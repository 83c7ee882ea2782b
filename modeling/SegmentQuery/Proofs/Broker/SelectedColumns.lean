import Mathlib.Data.List.Flatten
import SegmentQuery.Proofs.Broker.ShownCells
import SegmentQuery.Proofs.Broker.TakenRows
/-!
# The columns of a selection's answer

A star in a select list is expanded twice: over the columns of a segment,
to fetch what it stands for, and over what was fetched, to show it. What
was fetched lists each column once, those of the ORDER BY list first, and
may hold columns that a star does not stand for. Still both expansions
come to the same names, and each name shows the column that bears it.
-/


namespace SegmentQuery

variable {q : Query}

/-! ## Two expansions -/

namespace Selection

variable {select columns : List String} {items : List OrderItem} {limit : Nat} {e : String}

/-- A star stands for the columns without a dollar sign in front. -/
theorem mem_visibleColumns_iff :
    e ∈ visibleColumns columns ↔ e ∈ columns ∧ e.toList.head? ≠ some '$' := by
  rw [visibleColumns, (List.mergeSort_perm _ _).mem_iff, List.mem_filter, decide_eq_true_iff]

/-- Of columns with the same visible ones among them a star stands for the
same. -/
theorem visibleColumns_congr_visible {columns' : List String} (hnodup : columns.Nodup)
    (hnodup' : columns'.Nodup)
    (h : ∀ e, e ∈ visibleColumns columns ↔ e ∈ visibleColumns columns') :
    visibleColumns columns = visibleColumns columns' := by
  have hnames (columns : List String) : visibleColumns
      (columns.filter fun name => name.toList.head? ≠ some '$') = visibleColumns columns := by
    rw [visibleColumns, List.filter_filter, visibleColumns]
    simp only [Bool.and_self]
  rw [← hnames columns, ← hnames columns']
  refine visibleColumns_congr ?_
  refine (List.perm_ext_iff_of_nodup (hnodup.filter _) (hnodup'.filter _)).2 fun e => ?_
  simpa only [mem_visibleColumns_iff, List.mem_filter, decide_eq_true_iff] using h e

theorem mem_outputColumns_iff : e ∈ outputColumns select columns ↔
    e ∈ select ∧ e ≠ star ∨ star ∈ select ∧ e ∈ visibleColumns columns := by
  unfold outputColumns
  rw [List.mem_flatMap]
  constructor
  · rintro ⟨item, hitem, he⟩
    by_cases hstar : item = star
    · rw [if_pos hstar] at he
      exact .inr ⟨hstar ▸ hitem, he⟩
    · rw [if_neg hstar] at he
      obtain rfl := List.mem_singleton.1 he
      exact .inl ⟨hitem, hstar⟩
  · rintro (⟨he, hstar⟩ | ⟨hstar, he⟩)
    · exact ⟨e, he, by rw [if_neg hstar]; exact List.mem_singleton_self e⟩
    · exact ⟨star, hstar, by rw [if_pos rfl]; exact he⟩

/-- What is shown is fetched. -/
theorem mem_fetchedExpressions (h : e ∈ outputColumns select columns) :
    e ∈ fetchedExpressions select items limit columns :=
  List.mem_eraseDups.2 (List.mem_append_right _ h)

/-- **Both expansions of a select list come to the same.** Where only
columns are fetched, a star stands for the same among what is fetched as
among the columns. -/
theorem outputColumns_fetchedExpressions (hnodup : columns.Nodup)
    (hknown : ∀ e ∈ fetchedExpressions select items limit columns, e ∈ columns) :
    outputColumns select (fetchedExpressions select items limit columns) =
      outputColumns select columns := by
  refine List.flatMap_congr fun item hitem => ?_
  by_cases hstar : item = star
  · rw [if_pos hstar, if_pos hstar]
    refine visibleColumns_congr_visible (nodup_eraseDups _) hnodup fun e => ?_
    rw [mem_visibleColumns_iff, mem_visibleColumns_iff]
    refine and_congr_left fun hvisible => ⟨hknown e, fun he => mem_fetchedExpressions ?_⟩
    exact mem_outputColumns_iff.2
      (.inr ⟨hstar ▸ hitem, mem_visibleColumns_iff.2 ⟨he, hvisible⟩⟩)
  · rw [if_neg hstar, if_neg hstar]

end Selection

/-! ## Columns of segments -/

namespace MemorySegment

variable {s t : MemorySegment} {column : ResultColumn}

/-- A result column that has the name and the type of a segment's
column. -/
def Shows (s : MemorySegment) (column : ResultColumn) : Prop :=
  ∃ metadata, s.metadata column.name = .ok metadata ∧ metadata.columnType = .ok column.type

/-- What shows a column of one segment shows a column of those like it. -/
theorem SameColumns.shows (h : s.SameColumns t) (hs : s.Shows column) : t.Shows column := by
  obtain ⟨metadata, hmetadata, htype⟩ := hs
  have hsame := h column.name
  rw [hmetadata] at hsame
  obtain ⟨metadata', hmetadata', hparts⟩ := Option.map_eq_some_iff.1 hsame.symm
  refine ⟨metadata', Except.toOption_eq_some.1 hmetadata', ?_⟩
  obtain ⟨htype', hsingle'⟩ := Prod.mk.inj hparts
  unfold ColumnMetadata.columnType at htype ⊢
  rwa [htype', hsingle']

/-- A fetched schema shows the columns that were fetched. -/
theorem shows_of_schema {expressions : List String} {schema : Schema}
    (h : Selection.schema s.segment expressions = .ok schema) :
    schema.names = expressions ∧ ∀ column ∈ schema.columns, s.Shows column := by
  have hcolumns := Selection.columns_of_schema h
  refine ⟨map_eq_of_forall₂ (hcolumns.flip.imp fun _ _ hcolumn => hcolumn.1),
    fun column hcolumn => ?_⟩
  obtain ⟨e, -, rfl, c, hfind, htype⟩ := exists_of_mem_right hcolumns hcolumn
  exact ⟨_, Except.map_eq_ok.2 ⟨c, hfind, rfl⟩, htype⟩

end MemorySegment

namespace Broker

/-! ## Rendering -/

/-- **What is rendered** has the names that were asked for, and each of its
columns shows the cells of the schema's first column of that name. -/
theorem of_render {schema : Schema} {rows : List Row} {names : List String} {shown : ResultTable}
    (h : ResultTable.render schema rows names = .ok shown) :
    shown.schema.names = names ∧
    List.Forall₂ (fun (row cells : Row) => List.Forall₂ (fun (column : ResultColumn) cell =>
        ∃ p : Nat, schema.columns[p]? = some column ∧
          column.type.render (row[p]?.getD .null) = .ok cell)
      shown.schema.columns cells) rows shown.rows := by
  obtain ⟨columns, hcolumns, hrest⟩ := Except.bind_eq_ok.1 h
  obtain ⟨rendered, hrendered, hpure⟩ := Except.bind_eq_ok.1 hrest
  obtain rfl := Except.ok.inj hpure
  have hlocated : List.Forall₂ (fun name (place : Nat × ResultColumn) =>
      place.2.name = name ∧ schema.columns[place.1]? = some place.2) names columns := by
    refine (Except.mapM_eq_ok.1 hcolumns).imp fun name place hplace => ?_
    obtain ⟨hindex, hcolumn⟩ := of_locate hplace
    obtain ⟨hlt, hname, -⟩ := List.findIdx?_eq_some_iff_getElem.1 hindex
    obtain ⟨hlt', hget⟩ := List.getElem?_eq_some_iff.1 hcolumn
    rw [hget] at hname
    exact ⟨beq_iff_eq.1 hname, hcolumn⟩
  refine ⟨?_, (Except.mapM_eq_ok.1 hrendered).imp fun row cells hrow => ?_⟩
  · rw [Schema.names, List.map_map]
    exact map_eq_of_forall₂ (hlocated.flip.imp fun _ _ hplace => hplace.1)
  · have hplaces : ∀ place ∈ columns, schema.columns[place.1]? = some place.2 := by
      intro place hmem
      obtain ⟨name, -, -, hcolumn⟩ := exists_of_mem_right hlocated hmem
      exact hcolumn
    rw [List.forall₂_map_left_iff]
    refine ((List.forall₂_and_left _ _).2 ⟨hplaces, Except.mapM_eq_ok.1 hrow⟩).imp ?_
    rintro ⟨p, column⟩ cell ⟨hcolumn, hcell⟩
    exact ⟨p, hcolumn, hcell⟩

/-- A selection renders rows of the tables. -/
theorem exists_of_reduceSelection {schema : Schema} {tables : List DataTable} {shown : ResultTable}
    (h : reduceSelection q schema tables = .ok shown) :
    ∃ rows : List Row, rows.Subperm (allRows tables) ∧
      ResultTable.render schema rows (Selection.outputColumns q.select schema.names) =
        .ok shown := by
  unfold reduceSelection at h
  cases hplain : q.orderBy.isEmpty with
  | true =>
    simp only [hplain, if_true] at h
    exact ⟨selectedRows q tables,
      ((List.drop_sublist _ _).trans (List.take_sublist _ _)).subperm, h⟩
  | false =>
    simp only [hplain, Bool.false_eq_true, if_false] at h
    obtain ⟨rows, hrows, hrender⟩ := Except.bind_eq_ok.1 h
    obtain ⟨kept, hkept, hsorted⟩ := Except.bind_eq_ok.1 hrows
    obtain rfl := Except.ok.inj hsorted
    obtain rfl := OrderedRows.of_offerAll hkept
    refine ⟨_, ?_, hrender⟩
    exact (List.drop_sublist _ _).subperm.trans (OrderedRows.takes_foldl_put _ _ _).sorted

/-! ## Servers -/

section

variable {servers : List (List MemorySegment)} {segments : List MemorySegment}
  {tables : List DataTable}

/-- What the table of a server without a failure holds: rows of its
segments' documents, under the schema of what is fetched from one of them,
if it has any. -/
theorem of_table (hkind : q.kind = .selection) {t : DataTable}
    (hclean : (q.run (segments.map MemorySegment.segment)).value.exceptions = [])
    (ht : DataTable.ofPartial (q.run (segments.map MemorySegment.segment)).value = .ok t) :
    t.allRows.Subperm (q.matchingRows segments) ∧
      ((segments = [] ∧ t.schema = .empty) ∨
        ∃ s ∈ segments, Selection.schema s.segment (q.fetched s) = .ok t.schema) := by
  obtain ⟨hrows, hschema⟩ := DataTable.allRows_ofPartial ht
  rw [hrows, hschema]
  rcases takes_of_server hkind hclean with rfl | ⟨s, hs, hfetched, htakes⟩
  · rw [List.map_nil, Query.value_run_nil]
    exact ⟨List.nil_subperm, .inl ⟨rfl, rfl⟩⟩
  · exact ⟨htakes.rows, .inr ⟨s, hs, hfetched⟩⟩

/-- The rows of all tables are rows of all segments' documents. -/
theorem subperm_allRows (hkind : q.kind = .selection)
    (hclean : ∀ server ∈ servers,
      (q.run (server.map MemorySegment.segment)).value.exceptions = [])
    (htables : List.Forall₂ (fun server t =>
      DataTable.ofPartial (q.run (server.map MemorySegment.segment)).value = .ok t)
      servers tables) : (allRows tables).Subperm (q.matchingRows servers.flatten) := by
  induction htables with
  | nil => exact List.nil_subperm
  | @cons server t servers tables ht _ ih =>
    obtain ⟨hserver, hservers⟩ := List.forall_mem_cons.1 hclean
    have hrest := (of_table hkind hserver ht).1.append (ih hservers)
    rw [Query.matchingRows_flatten] at hrest ⊢
    exact hrest

/-- What a select list stands for among the columns of a fetched schema is
what it stands for among those of any segment of the table. -/
theorem outputColumns_of_schema {s u : MemorySegment} {schema : Schema} (hlike : u.SameColumns s)
    (hschema : Selection.schema u.segment (q.fetched u) = .ok schema) :
    Selection.outputColumns q.select schema.names =
      Selection.outputColumns q.select s.segment.columnNames := by
  have hknown : ∀ e ∈ q.fetched u, e ∈ u.segment.columnNames := by
    intro e he
    obtain ⟨c, hfind, -⟩ := Selection.fetchable_iff.2 ⟨schema, hschema⟩ e he
    obtain ⟨hc, rfl⟩ := MemorySegment.find_name hfind
    exact List.mem_map_of_mem hc
  have htwice : Selection.outputColumns q.select (q.fetched u) =
      Selection.outputColumns q.select u.segment.columnNames :=
    Selection.outputColumns_fetchedExpressions u.names_nodup hknown
  rw [(MemorySegment.shows_of_schema hschema).1, htwice, Selection.outputColumns,
    Selection.outputColumns, Selection.visibleColumns_congr hlike.perm_columnNames]

/-- A row that is fetched has its document's cell in the place of a
column. -/
theorem cell_of_schema {u : MemorySegment} {document : MemorySegment × Nat} {schema : Schema}
    (hlike : u.SameColumns document.1)
    (hschema : Selection.schema u.segment (q.fetched u) = .ok schema) {p : Nat}
    {column : ResultColumn} (hcolumn : schema.columns[p]? = some column) :
    document.1.Shows column ∧ (q.rowOf document)[p]?.getD .null =
      document.1.cell q.options.nullHandling document.2 column.name := by
  obtain ⟨hnames, hshows⟩ := MemorySegment.shows_of_schema hschema
  refine ⟨hlike.shows (hshows column (List.mem_of_getElem? hcolumn)), ?_⟩
  rw [Query.rowOf, ← hlike.fetched_eq q, ← hnames, MemorySegment.row, Schema.names,
    List.getElem?_map, List.getElem?_map, hcolumn]
  rfl

/-- **What the broker shows** are rows of documents, rendered under what is
fetched from one of the segments. -/
theorem render_of_resultTable (hkind : q.kind = .selection) (hsome : servers.flatten ≠ [])
    (hclean : ∀ server ∈ servers,
      (q.run (server.map MemorySegment.segment)).value.exceptions = [])
    (htables : List.Forall₂ (fun server t =>
      DataTable.ofPartial (q.run (server.map MemorySegment.segment)).value = .ok t)
      servers tables)
    {shown : ResultTable} (hshown : resultTable q tables = .ok shown) :
    ∃ u ∈ servers.flatten, ∃ schema rows,
      Selection.schema u.segment (q.fetched u) = .ok schema ∧
      rows.Subperm (q.matchingRows servers.flatten) ∧
      ResultTable.render schema rows (Selection.outputColumns q.select schema.names) =
        .ok shown := by
  unfold resultTable at hshown
  cases hcolumned : tables.filter fun t => !t.schema.isEmpty with
  | nil =>
    rw [hcolumned] at hshown
    obtain rfl := Except.ok.inj hshown
    -- some segment's table has no column, so nothing is selected
    obtain ⟨s, hs⟩ := List.exists_mem_of_ne_nil _ hsome
    obtain ⟨server, hserver, hmem⟩ := List.mem_flatten.1 hs
    obtain ⟨t, htmem, ht⟩ := exists_of_mem_right htables.flip hserver
    rcases (of_table hkind (hclean server hserver) ht).2 with ⟨hnil, -⟩ | ⟨u, hu, hschema⟩
    · rw [hnil] at hmem
      exact absurd hmem List.not_mem_nil
    · have hempty : t.schema.columns = [] := by
        simpa [Schema.isEmpty] using List.filter_eq_nil_iff.1 hcolumned t htmem
      have hnames : t.schema.names = [] := congrArg (List.map ResultColumn.name) hempty
      have hnothing : Selection.outputColumns q.select t.schema.names = [] := by
        rw [outputColumns_of_schema (.refl u) hschema]
        refine List.eq_nil_iff_forall_not_mem.2 fun e he => ?_
        have hfetched : e ∈ q.fetched u := Selection.mem_fetchedExpressions he
        rw [← (MemorySegment.shows_of_schema hschema).1, hnames] at hfetched
        exact absurd hfetched List.not_mem_nil
      refine ⟨u, List.mem_flatten.2 ⟨server, hserver, hu⟩, _, [], hschema, List.nil_subperm, ?_⟩
      rw [hnothing]
      rfl
  | cons first rest =>
    rw [hcolumned] at hshown
    obtain ⟨hfirst, hbusy⟩ := List.mem_filter.1 (hcolumned ▸ List.mem_cons_self :
      first ∈ tables.filter fun t => !t.schema.isEmpty)
    obtain ⟨server, hserver, ht⟩ := exists_of_mem_right htables hfirst
    unfold reduceTables at hshown
    simp only [hkind] at hshown
    obtain ⟨rows, hrows, hrender⟩ := exists_of_reduceSelection hshown
    have hall : (allRows (first :: rest)).Sublist (allRows tables) := by
      rw [← hcolumned]
      exact List.filter_sublist.flatMap _
    rcases (of_table hkind (hclean server hserver) ht).2 with ⟨-, hempty⟩ | ⟨u, hu, hschema⟩
    · rw [hempty] at hbusy
      exact absurd hbusy Bool.false_ne_true
    · exact ⟨u, List.mem_flatten.2 ⟨server, hserver, hu⟩, _, rows, hschema,
        hrows.trans (hall.subperm.trans (subperm_allRows hkind hclean htables)), hrender⟩

/-- **A selection shows what was selected.** However the segments of a table
are spread over servers, and whatever the select list, the order and the
limit are: where no server reports a failure and the broker shows a table,
the table has the names that the select list stands for over the columns of
any of the segments, in the list's order and with its repetitions. What is
ordered by and not selected is not among them. The rows are of matching
documents, none of which has two, and each cell is the rendered value of
the named column of its row's document. -/
theorem columns_of_selection (q : Query) (hkind : q.kind = .selection)
    (servers : List (List MemorySegment)) (hsome : servers.flatten ≠ [])
    (hcolumns : servers.flatten.Pairwise MemorySegment.SameColumns)
    (hclean : ∀ server ∈ servers,
      (q.run (server.map MemorySegment.segment)).value.exceptions = [])
    (tables : List DataTable)
    (htables : List.Forall₂ (fun server t =>
      DataTable.ofPartial (q.run (server.map MemorySegment.segment)).value = .ok t)
      servers tables)
    (shown : ResultTable) (hshown : resultTable q tables = .ok shown) :
    (∀ s ∈ servers.flatten,
      shown.schema.names = Selection.outputColumns q.select s.segment.columnNames) ∧
    (∀ item ∈ q.orderBy, item.expression ∉ q.select →
      (Selection.star ∈ q.select → item.expression.toList.head? = some '$') →
      item.expression ∉ shown.schema.names) ∧
    ∃ picked : List (MemorySegment × Nat),
      picked.Subperm (MemorySegment.matchingDocuments servers.flatten) ∧
      List.Forall₂ (fun (document : MemorySegment × Nat) (row : Row) =>
        List.Forall₂ (fun column cell => document.1.Shows column ∧
          column.type.render
            (document.1.cell q.options.nullHandling document.2 column.name) = .ok cell)
          shown.schema.columns row) picked shown.rows := by
  obtain ⟨u, hu, schema, rows, hschema, hrows, hrender⟩ :=
    render_of_resultTable hkind hsome hclean htables hshown
  obtain ⟨hnames, hcells⟩ := of_render hrender
  have hlike {s : MemorySegment} (hs : s ∈ servers.flatten) : u.SameColumns s :=
    .of_pairwise hcolumns hu hs
  refine ⟨fun s hs => hnames.trans (outputColumns_of_schema (hlike hs) hschema),
    fun item _ hselect hstar hitem => ?_, ?_⟩
  · rw [hnames] at hitem
    rcases Selection.mem_outputColumns_iff.1 hitem with ⟨hmem, -⟩ | ⟨hmem, hvisible⟩
    · exact hselect hmem
    · exact (Selection.mem_visibleColumns_iff.1 hvisible).2 (hstar hmem)
  · rw [q.matchingRows_eq_map] at hrows
    obtain ⟨picked, hpicked, rfl⟩ := exists_map_of_subperm hrows
    refine ⟨picked, hpicked, ?_⟩
    have hmatching : ∀ document ∈ picked, u.SameColumns document.1 := fun document hdocument =>
      hlike (MemorySegment.of_mem_matchingDocuments (hpicked.subset hdocument)).1
    rw [List.forall₂_map_left_iff] at hcells
    refine ((List.forall₂_and_left _ _).2 ⟨hmatching, hcells⟩).imp fun document row h => ?_
    refine h.2.imp fun column cell hcell => ?_
    obtain ⟨p, hcolumn, hcell⟩ := hcell
    obtain ⟨hshows, hvalue⟩ := cell_of_schema h.1 hschema hcolumn
    exact ⟨hshows, hvalue ▸ hcell⟩

end

/-- Two documents in a column that a star stands for and one that it does
not. -/
def ranked : MemorySegment where
  name := "ranked"
  numDocs := 2
  columns := [⟨"a", .metric, ⟨.single .int [5, 6], none⟩⟩,
    ⟨"$rank", .dimension, ⟨.single .int [2, 3], none⟩⟩]
  blockSize := 2
  sortedColumns := []
  filter := none
  numDocs_le := Nat.le_add_left 2 4294967294
  length_columns := by decide
  names_nodup := by decide
  blockSize_pos := Nat.two_pos

/-- Four documents in the same columns, which stand in another order. They
are declared sorted. -/
def rankedNext : MemorySegment where
  name := "ranked next"
  numDocs := 4
  columns := [⟨"$rank", .dimension, ⟨.single .int [1, 4, 5, 6], none⟩⟩,
    ⟨"a", .dimension, ⟨.single .int [7, 8, 9, 0], none⟩⟩]
  blockSize := 2
  sortedColumns := ["$rank"]
  filter := none
  numDocs_le := Nat.le_add_left 4 4294967292
  length_columns := by decide
  names_nodup := by decide
  blockSize_pos := Nat.two_pos

/-- A column and all columns of the first document by rank. -/
def firstByRank : Query where
  kind := .selection
  select := ["a", Selection.star]
  orderBy := [⟨"$rank", .asc⟩]
  options := { limit := 1 }

theorem sameColumns_ranked : ranked.SameColumns rankedNext := by
  intro name
  by_cases ha : "a" = name
  · subst ha; rfl
  by_cases hrank : "$rank" = name
  · subst hrank; rfl
  simp [ColumnSegment.metadata, ColumnSegment.find, ranked, rankedNext, ha, hrank, Except.map,
    Except.toOption]

/-- The rank that documents are ordered by is not shown. -/
theorem columns_of_selection_ranked :
    ∃ tables shown, List.Forall₂ (fun server t =>
        DataTable.ofPartial (firstByRank.run (server.map MemorySegment.segment)).value = .ok t)
        [[ranked, rankedNext], []] tables ∧
      resultTable firstByRank tables = .ok shown ∧
      shown.schema.names = ["a", "a"] ∧ "$rank" ∉ shown.schema.names := by
  have hclean : ∀ server ∈ [[ranked, rankedNext], []],
      (firstByRank.run (server.map MemorySegment.segment)).value.exceptions = [] := by
    decide +kernel
  have hall : ∃ shown, (do
      let first ← DataTable.ofPartial
        (firstByRank.run ([ranked, rankedNext].map MemorySegment.segment)).value
      let second ← DataTable.ofPartial (firstByRank.run ([].map MemorySegment.segment)).value
      resultTable firstByRank [first, second]) = .ok shown :=
    Except.exists_ok_of_isOk (by decide +kernel)
  obtain ⟨shown, hshows⟩ := hall
  obtain ⟨first, hfirst, hrest⟩ := Except.bind_eq_ok.1 hshows
  obtain ⟨second, hsecond, hshown⟩ := Except.bind_eq_ok.1 hrest
  obtain ⟨hnames, hrank, -⟩ := columns_of_selection firstByRank rfl [[ranked, rankedNext], []]
    (List.cons_ne_nil _ _) (List.pairwise_pair.2 sameColumns_ranked) hclean [first, second]
    (.cons hfirst (.cons hsecond .nil)) shown hshown
  refine ⟨_, shown, .cons hfirst (.cons hsecond .nil), hshown, ?_, ?_⟩
  · exact (hnames ranked List.mem_cons_self).trans (by decide +kernel)
  · exact hrank ⟨"$rank", .asc⟩ (List.mem_singleton_self _) (by decide) fun _ => rfl

end Broker

end SegmentQuery
