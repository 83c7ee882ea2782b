import SegmentQuery.Proofs.Broker.Window
import SegmentQuery.Proofs.Operator.DistinctScans
/-!
# Distinct values over many servers

Segments, servers and the broker each keep as many distinct values as the
answer may need, and segments stop early. What the broker is left with is
still what one collection of all matching values would show: the first
occurrences of the different ones, in order where there is one.
-/


namespace SegmentQuery

open DistinctValues

variable {q : Query} {column : String} {type : StoredType} {order : Option Direction}

/-- The values of a column that a query matches in some segments. -/
def Query.matchingValues (q : Query) (column : String) (segments : List MemorySegment) :
    List (Option Key) :=
  segments.flatMap fun s => s.valuesOf q.options.nullHandling column

theorem Query.matchingValues_flatten (servers : List (List MemorySegment)) :
    q.matchingValues column servers.flatten = (servers.map (q.matchingValues column)).flatten := by
  induction servers with
  | nil => rfl
  | cons server servers ih =>
    rw [List.flatten_cons, List.map_cons, List.flatten_cons, ← ih]
    exact List.flatMap_append

/-- Whether a segment has a single-value column of a type. -/
def MemorySegment.HasColumn (s : MemorySegment) (column : String) (type : StoredType) : Prop :=
  ∃ c, s.find column = .ok c ∧ c.column.isSingleValue = true ∧ c.column.type = type

namespace DistinctValues

variable {limit : Nat} {nullHandling : Bool} {d : DistinctValues}

/-- Collections of one type merge. -/
theorem Collects.exists_foldlM_merge {rest : List DistinctValues}
    (h : Collects type order limit nullHandling d)
    (hrest : ∀ source ∈ rest, Collects type order limit nullHandling source) :
    ∃ merged, rest.foldlM merge d = .ok merged := by
  induction rest generalizing d with
  | nil => exact ⟨d, rfl⟩
  | cons source rest ih =>
    obtain ⟨hsource, hrest⟩ := List.forall_mem_cons.1 hrest
    have hmerge : d.merge source = .ok (source.values.foldl DistinctValues.add d) :=
      merge_eq_ok.2 ⟨h.type_eq.trans hsource.type_eq.symm, rfl⟩
    obtain ⟨merged, hmerged⟩ := ih (h.foldl_add hsource.fits) hrest
    exact ⟨merged, by rw [List.foldlM_cons, hmerge]; exact hmerged⟩

end DistinctValues

namespace Broker

/-- The results of segments that have the column. -/
structure Shows (q : Query) (column : String) (type : StoredType) (order : Option Direction)
    (segments : List MemorySegment) (schema : Schema) (d : DistinctValues) : Prop where
  schema : ∃ role, schema = ⟨[⟨column, .ofStored type, role⟩]⟩
  collects : Collects type order q.options.rowsToKeep q.options.nullHandling d
  values : d.values = shown q.options.rowsToKeep order (q.matchingValues column segments)

variable {s : MemorySegment} {segments : List MemorySegment}

/-- **A segment shows the values of its matching documents.** -/
theorem shows_of_segment (hkind : q.kind = .distinct)
    (hcolumn : q.distinctColumn = .ok (column, order)) (hs : s.HasColumn column type) :
    ∃ r d, (q.runOver s.segment).value = .ok r ∧ r.rows = .distinct d ∧
      Shows q column type order [s] r.schema d := by
  obtain ⟨c, hfind, hsingle, rfl⟩ := hs
  obtain ⟨r, d, hrun, hschema, hrows, hcollects, hvalues⟩ :=
    @Distinct.values_of_segment order s c column q.options hfind hsingle
  refine ⟨r, d, ?_, hrows, ⟨c.role, hschema⟩, hcollects, ?_⟩
  · rw [Query.runOver, hkind]
    simp only [hcolumn, hrun]
  · rw [hvalues, Query.matchingValues, List.flatMap_singleton]

/-- **A server shows the values of its segments' matching documents.** -/
theorem shows_of_server (hkind : q.kind = .distinct)
    (hcolumn : q.distinctColumn = .ok (column, order))
    (hsegments : ∀ t ∈ s :: segments, t.HasColumn column type) :
    ∃ d, (q.run ((s :: segments).map MemorySegment.segment)).value.rows = .distinct d ∧
      Shows q column type order (s :: segments)
        (q.run ((s :: segments).map MemorySegment.segment)).value.schema d := by
  obtain ⟨hs, hrest⟩ := List.forall_mem_cons.1 hsegments
  obtain ⟨first, d, hrun, hrows, hfirst⟩ := shows_of_segment hkind hcolumn hs
  have hothers : ∀ t ∈ segments, ∃ result : PartialResult × DistinctValues,
      (q.runOver t.segment).value = .ok result.1 ∧ result.1.rows = .distinct result.2 ∧
        Shows q column type order [t] result.1.schema result.2 := by
    intro t ht
    obtain ⟨r, d, h⟩ := shows_of_segment hkind hcolumn (hrest t ht)
    exact ⟨(r, d), h⟩
  obtain ⟨results, hresults⟩ := exists_forall₂ hothers
  have hcollects : ∀ source ∈ results.map Prod.snd,
      Collects type order q.options.rowsToKeep q.options.nullHandling source := by
    intro source hsource
    obtain ⟨result, hresult, rfl⟩ := List.mem_map.1 hsource
    obtain ⟨t, -, ht⟩ := exists_of_mem_right hresults hresult
    exact ht.2.2.collects
  obtain ⟨merged, hmerged⟩ := hfirst.collects.exists_foldlM_merge hcollects
  obtain ⟨hall, -, hshown⟩ :=
    hfirst.collects.foldlM_merge (fun source hsource => ⟨type, hcollects source hsource⟩) hmerged
  have hpayloads : List.Forall₂ (fun (r : PartialResult) d => r.rows = .distinct d)
      (results.map Prod.fst) (results.map Prod.snd) := by
    rw [List.forall₂_map_left_iff, List.forall₂_map_right_iff, List.forall₂_same]
    intro result hresult
    obtain ⟨t, -, ht⟩ := exists_of_mem_right hresults hresult
    exact ht.2.1
  obtain ⟨r, hfold, hsame, hr⟩ := Combiner.exists_foldlM_mergeResult (c := q.combiner)
    (fun _ => ResultRows.noConfusion) Combiner.mergeRows_distinct hpayloads hrows hmerged
  have houtcomes : List.Forall₂ (fun s r => (q.runOver (MemorySegment.segment s)).value = .ok r)
      (s :: segments) (first :: results.map Prod.fst) := by
    refine .cons hrun ?_
    rw [List.forall₂_map_right_iff]
    exact hresults.imp fun _ _ h => h.1
  have hparts : (results.map Prod.snd).flatMap DistinctValues.values =
      (segments.map fun t => q.matchingValues column [t]).flatMap
        (shown q.options.rowsToKeep order) := by
    have hall : List.Forall₂ (fun (result : PartialResult × DistinctValues) t =>
        result.2.values = shown q.options.rowsToKeep order (q.matchingValues column [t])) results
        segments := hresults.flip.imp fun _ _ h => h.2.2.values
    rw [List.flatMap_map, List.flatMap_map, List.flatMap_def, List.flatMap_def,
      forall₂_iff_map_eq.1 hall]
  rw [Query.value_run_of_outcomes houtcomes hfold, hsame]
  refine ⟨merged, hr, hfirst.schema, hall, ?_⟩
  -- the values of the segments one after the other
  rw [hshown, hfirst.values, foldl_keep_shown, hparts, shown_append_flatMap_shown, ← List.flatMap_def]
  simp only [Query.matchingValues, List.flatMap_singleton]
  rfl

/-! ## Tables -/

/-- What the table of a server with segments holds. -/
structure ShownTable (q : Query) (column : String) (type : StoredType) (order : Option Direction)
    (segments : List MemorySegment) (t : DataTable) : Prop where
  schema : ∃ role, t.schema = ⟨[⟨column, .ofStored type, role⟩]⟩
  rows : t.allRows =
    (shown q.options.rowsToKeep order (q.matchingValues column segments)).map rowOf
  fits : ∀ value ∈ shown q.options.rowsToKeep order (q.matchingValues column segments),
    Fits type q.options.nullHandling value

/-- **What a server hands on** is a table of the values that it shows, or
has no columns if it has no segments. -/
theorem shownTable_of_server (hkind : q.kind = .distinct)
    (hcolumn : q.distinctColumn = .ok (column, order))
    (hsegments : ∀ t ∈ segments, t.HasColumn column type) {t : DataTable}
    (ht : DataTable.ofPartial (q.run (segments.map MemorySegment.segment)).value = .ok t) :
    (segments = [] ∧ t.schema.isEmpty) ∨ ShownTable q column type order segments t := by
  obtain ⟨hrows, hschema⟩ := DataTable.allRows_ofPartial ht
  cases segments with
  | nil =>
    rw [List.map_nil, Query.value_run_nil] at hschema
    exact .inl ⟨rfl, by rw [hschema]; rfl⟩
  | cons s segments =>
    obtain ⟨d, hd, hshows⟩ := shows_of_server hkind hcolumn hsegments
    rw [hd] at hrows
    refine .inr ⟨hschema ▸ hshows.schema, ?_, ?_⟩
    · rw [hrows, ← hshows.values, ← rows_eq]
      rfl
    · rw [← hshows.values]
      exact hshows.collects.fits

/-- **A server's result makes a table** when it shows no more values than a
table can number. -/
theorem exists_shownTable_iff (hkind : q.kind = .distinct)
    (hcolumn : q.distinctColumn = .ok (column, order))
    (hsegments : ∀ t ∈ segments, t.HasColumn column type) :
    (∃ t, DataTable.ofPartial (q.run (segments.map MemorySegment.segment)).value = .ok t) ↔
      min q.options.rowsToKeep (firstValues (q.matchingValues column segments)).length ≤
        Number.bound32 := by
  rw [DataTable.exists_ofPartial_iff]
  cases segments with
  | nil =>
    rw [List.map_nil, Query.value_run_nil]
    simp [PartialResult.empty, ResultRows.rows, Query.matchingValues, firstValues]
  | cons s segments =>
    obtain ⟨d, hd, ⟨role, hschema⟩, -, hvalues⟩ := shows_of_server hkind hcolumn hsegments
    rw [hd, hschema, ← length_shown _ order, ← hvalues]
    show (∀ row ∈ d.rows, row.length = 1) ∧ d.rows.length ≤ _ ↔ _
    rw [rows_eq, List.length_map]
    refine and_iff_right fun row hrow => ?_
    obtain ⟨value, -, rfl⟩ := List.mem_map.1 hrow
    rfl

/-! ## The broker -/

/-- A value is shown as the cell that it is. -/
theorem renderRow_rowOf {role : FieldKind} {nullHandling : Bool} {value : Option Key}
    (h : Fits type nullHandling value) :
    ResultTable.renderRow [(0, ⟨column, .ofStored type, role⟩)] (rowOf value) =
      .ok ((rowOf value).map Cell.display) := by
  cases value with
  | none => cases type <;> rfl
  | some key =>
    obtain ⟨cell⟩ := key
    obtain ⟨-, htype, hsingle⟩ := h
    cases cell with
    | null => exact nomatch htype
    | intArray | longArray | floatArray | doubleArray | stringArray =>
      exact absurd hsingle Bool.noConfusion
    | _ =>
      obtain rfl := Option.some.inj htype
      rfl

/-- Rows of values are shown under their column. -/
theorem render_rowOf {role : FieldKind} {nullHandling : Bool} {values : List (Option Key)}
    (h : ∀ value ∈ values, Fits type nullHandling value) :
    ResultTable.render ⟨[⟨column, .ofStored type, role⟩]⟩ (values.map rowOf) [column] =
      .ok ⟨⟨[⟨column, .ofStored type, role⟩]⟩,
        values.map fun value => (rowOf value).map Cell.display⟩ := by
  have hlocate : ResultTable.locate ⟨[⟨column, .ofStored type, role⟩]⟩ column =
      .ok (0, ⟨column, .ofStored type, role⟩) := by
    simp [ResultTable.locate, Schema.indexOf?]
  have hrows : (values.map rowOf).mapM
      (ResultTable.renderRow [(0, ⟨column, .ofStored type, role⟩)]) =
        .ok (values.map fun value => (rowOf value).map Cell.display) := by
    rw [Except.mapM_eq_ok, List.forall₂_map_left_iff, List.forall₂_map_right_iff,
      List.forall₂_same]
    exact fun value hvalue => renderRow_rowOf (h value hvalue)
  simp only [ResultTable.render, List.mapM_cons, List.mapM_nil, hlocate, hrows, bind, Except.bind,
    pure, Except.pure, List.map_cons, List.map_nil]

variable {servers : List (List MemorySegment)} {tables : List DataTable}

/-- **The broker shows the window on what all servers show.** -/
theorem reduceDistinct_of_tables {schema : Schema} {role : FieldKind}
    (hschema : schema = ⟨[⟨column, .ofStored type, role⟩]⟩) (horder : q.distinctOrder = .ok order)
    (h : List.Forall₂ (ShownTable q column type order) servers tables) :
    reduceDistinct q schema tables = .ok ⟨schema,
      ((shown q.options.rowsToKeep order (q.matchingValues column servers.flatten)).drop
        q.options.offset).map fun value => (rowOf value).map Cell.display⟩ := by
  have hnew := @collects_new type order q.options.rowsToKeep q.options.nullHandling
  have hrows : allRows tables = (servers.flatMap fun server =>
      shown q.options.rowsToKeep order (q.matchingValues column server)).map rowOf := by
    rw [allRows_eq_flatMap (h.flip.imp fun _ _ ht => ht.rows), List.map_flatMap]
  have hfits : ∀ value ∈ servers.flatMap fun server =>
      shown q.options.rowsToKeep order (q.matchingValues column server),
        Fits type q.options.nullHandling value := by
    intro value hvalue
    obtain ⟨server, hserver, hmem⟩ := List.mem_flatMap.1 hvalue
    obtain ⟨t, -, ht⟩ := exists_of_mem_right h.flip hserver
    exact ht.fits value hmem
  have htaken := addDistinct_rowOf hnew hfits
  rw [← hrows] at htaken
  have hall : shown q.options.rowsToKeep order (servers.flatMap fun server =>
      shown q.options.rowsToKeep order (q.matchingValues column server)) =
        shown q.options.rowsToKeep order (q.matchingValues column servers.flatten) := by
    have hparts := shown_append_flatMap_shown q.options.rowsToKeep order []
      (servers.map (q.matchingValues column))
    rw [List.nil_append, List.nil_append, List.flatMap_map] at hparts
    rw [hparts, ← Query.matchingValues_flatten]
  have hshown := (@values_foldl_add_new type order q.options.rowsToKeep q.options.nullHandling
    _).trans hall
  have hkept := (hnew.foldl_add hfits).fits
  rw [hshown] at hkept
  rw [reduceDistinct_eq hschema horder htaken, rows_eq, ← List.map_drop, hshown, hschema]
  exact render_rowOf fun value hvalue => hkept value (List.mem_of_mem_drop hvalue)

/-- The servers with segments are those whose tables have columns. -/
theorem shownTables_of_servers (hkind : q.kind = .distinct)
    (hcolumn : q.distinctColumn = .ok (column, order))
    (hcolumns : ∀ s ∈ servers.flatten, s.HasColumn column type)
    (htables : List.Forall₂ (fun server t =>
      DataTable.ofPartial (q.run (server.map MemorySegment.segment)).value = .ok t)
      servers tables) :
    ∃ busy, busy.flatten = servers.flatten ∧
      List.Forall₂ (ShownTable q column type order) busy
        (tables.filter fun t => !t.schema.isEmpty) := by
  refine exists_busy htables fun server hserver t ht => ?_
  have hsegments : ∀ s ∈ server, s.HasColumn column type := fun s hs =>
    hcolumns s (List.mem_flatten.2 ⟨server, hserver, hs⟩)
  refine (shownTable_of_server hkind hcolumn hsegments ht).imp_right fun htable => ⟨?_, htable⟩
  obtain ⟨role, hschema⟩ := htable.schema
  rw [hschema]
  rfl

/-- A window up to a cut at the number of rows to keep is one of `limit`
items, unless counters are too small for it. -/
theorem drop_take_rowsToKeep {α : Type} {xs : List α} {options : Options}
    (h : xs.length ≤ Counter.max64 ∨ options.offset + options.limit ≤ Counter.max64) :
    (xs.take options.rowsToKeep).drop options.offset =
      (xs.drop options.offset).take options.limit := by
  rw [List.take_eq_take_iff.2 (min_rowsToKeep options h), List.drop_take, Nat.add_sub_cancel_left]

/-- **Distinct values are exact at every level.** However segments with a
single-value column of one type are spread over servers: the broker shows
the values from `offset` to `offset + limit` of all different ones that
match, each once, in the given direction with null last, or else by first
occurrence in server, segment and document order. Every server's result
makes a table unless it keeps more values than a table can number. As
counters have 64 bits, `offset + limit` stops at the greatest. -/
theorem resultTable_of_distinct_servers (q : Query) (hkind : q.kind = .distinct) {column : String}
    {order : Option Direction} (hcolumn : q.distinctColumn = .ok (column, order))
    (type : StoredType) (servers : List (List MemorySegment))
    (hcolumns : ∀ s ∈ servers.flatten, s.HasColumn column type) :
    let found := arrange order (firstValues (q.matchingValues column servers.flatten))
    ((∃ tables, List.Forall₂ (fun server t =>
        DataTable.ofPartial (q.run (server.map MemorySegment.segment)).value = .ok t)
        servers tables) ↔
      ∀ server ∈ servers, min q.options.rowsToKeep
        (firstValues (q.matchingValues column server)).length ≤ Number.bound32) ∧
    ∀ tables, List.Forall₂ (fun server t =>
        DataTable.ofPartial (q.run (server.map MemorySegment.segment)).value = .ok t)
        servers tables →
      (servers.flatten = [] → resultTable q tables = .ok .empty) ∧
      (servers.flatten ≠ [] → ∃ role, resultTable q tables =
        .ok ⟨⟨[⟨column, .ofStored type, role⟩]⟩,
          ((found.take q.options.rowsToKeep).drop q.options.offset).map fun value =>
            (rowOf value).map Cell.display⟩) ∧
      (found.length ≤ Counter.max64 ∨ q.options.offset + q.options.limit ≤ Counter.max64 →
        (found.take q.options.rowsToKeep).drop q.options.offset =
          (found.drop q.options.offset).take q.options.limit) := by
  intro found
  have htable : ∀ server ∈ servers, _ := fun server hserver =>
    exists_shownTable_iff hkind hcolumn fun s hs =>
      hcolumns s (List.mem_flatten.2 ⟨server, hserver, hs⟩)
  refine ⟨⟨?_, fun hsizes => ?_⟩, fun tables htables => ⟨fun hnil => ?_, fun hsome => ?_,
    drop_take_rowsToKeep⟩⟩
  · rintro ⟨tables, htables⟩ server hserver
    obtain ⟨t, -, ht⟩ := exists_of_mem_right htables.flip hserver
    exact (htable server hserver).1 ⟨t, ht⟩
  · exact exists_forall₂ fun server hserver => (htable server hserver).2 (hsizes server hserver)
  · rw [resultTable, filter_tables_eq_nil hnil htables]
    rfl
  · obtain ⟨busy, hbusy, hshown⟩ := shownTables_of_servers hkind hcolumn hcolumns htables
    cases hcolumned : tables.filter fun t => !t.schema.isEmpty with
    | nil =>
      rw [hcolumned, List.forall₂_nil_right_iff] at hshown
      rw [hshown] at hbusy
      exact absurd hbusy.symm hsome
    | cons first rest =>
      rw [hcolumned] at hshown
      obtain ⟨server, _, hfirst, -, -⟩ := List.forall₂_cons_right_iff.1 hshown
      obtain ⟨role, hschema⟩ := hfirst.schema
      have hreduce := reduceDistinct_of_tables hschema
        (Query.distinctOrder_of_distinctColumn hcolumn) hshown
      rw [hbusy] at hreduce
      refine ⟨role, ?_⟩
      rw [resultTable, hcolumned, reduceTables]
      simp only [hkind, hreduce]
      rw [hschema]
      rfl

/-- The two least integers after the least one. -/
def smallest : Query where
  kind := .distinct
  select := ["k"]
  orderBy := [⟨"k", .asc⟩]
  options := { offset := 1, limit := 2 }

/-- Of the integers 3, 1, 2, 3 and 1 on three servers there are two after
the least one. -/
theorem resultTable_of_distinct_servers_three :
    let servers := [[integers [3, 1] (by decide), integers [2] (by decide)], [],
      [integers [3, 1] (by decide)]]
    ∃ tables role, List.Forall₂ (fun server t =>
        DataTable.ofPartial (smallest.run (server.map MemorySegment.segment)).value = .ok t)
        servers tables ∧
      resultTable smallest tables = .ok ⟨⟨[⟨"k", .int, role⟩]⟩, [[.int 2], [.int 3]]⟩ := by
  intro servers
  have hcolumns : ∀ s ∈ servers.flatten, s.HasColumn "k" .int := by
    intro s hs
    obtain ⟨values, h, rfl⟩ : ∃ values h, s = integers values h := by
      rcases List.mem_cons.1 hs with rfl | hs
      · exact ⟨_, _, rfl⟩
      rcases List.mem_cons.1 hs with rfl | hs
      · exact ⟨_, _, rfl⟩
      exact ⟨_, _, List.mem_singleton.1 hs⟩
    exact ⟨_, rfl, rfl, rfl⟩
  obtain ⟨htables, hshown⟩ :=
    resultTable_of_distinct_servers smallest rfl rfl .int servers hcolumns
  obtain ⟨tables, ht⟩ := htables.2 (by decide +kernel)
  obtain ⟨-, hsome, -⟩ := hshown tables ht
  obtain ⟨role, hresult⟩ := hsome (by decide)
  -- the different integers in order
  have hascending : List.Pairwise (fun a b => (compareValues .asc a b).isLE)
      [some (Cell.int 1).key, some (Cell.int 2).key, some (Cell.int 3).key] := by decide +kernel
  have hfound : arrange (some .asc) (firstValues (smallest.matchingValues "k" servers.flatten)) =
      [some (Cell.int 1).key, some (Cell.int 2).key, some (Cell.int 3).key] :=
    mergeSort_eq_of_ascending (by decide +kernel) hascending (by decide +kernel)
  refine ⟨tables, role, ht, hresult.trans ?_⟩
  rw [hfound]
  rfl

end Broker

end SegmentQuery
