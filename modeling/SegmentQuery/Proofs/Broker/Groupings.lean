import SegmentQuery.Proofs.Broker.Interchange
import SegmentQuery.Proofs.Result.Tabulated
/-!
# Groupings over many servers

Segments number the key tuples of their documents, servers merge the
tables of their segments, and the broker puts together what the servers
sent. While the different tuples fit the group limit no group is lost,
doubled or mixed with another: the broker has one group for each tuple of
a matching document, in order, and the cells of a group summarize the
documents of the tuple, wherever their segments are.
-/


namespace SegmentQuery

variable {q : Query}

/-- The matching documents of some segments. -/
def Document.matching (segments : List MemorySegment) : List Document :=
  segments.flatMap fun s => s.matching.map (Document.mk s)

namespace Query

/-- The key tuple of a document under the query's group-by columns. -/
def documentTuple (q : Query) (d : Document) : List Key :=
  d.tuple q.options.nullHandling q.groupBy

/-- The tables of documents by the query's group-by columns. -/
abbrev Tabulates (q : Query) (documents : List Document) (t : GroupTable) : Prop :=
  GroupBy.Tabulates q.options.nullHandling q.groupBy q.functions documents t

/-- Segments whose matching documents a query groups: by single-value
columns, under functions that find what they read, in no more groups than
the limit. -/
structure Grouping (q : Query) (segments : List MemorySegment) : Prop where
  single : ∀ s ∈ segments, ∀ e ∈ q.groupBy, s.isSingle e
  answerable : ∀ s ∈ segments, ∀ f ∈ q.functions, f.Answerable q.options.nullHandling s
  fits : GroupBy.Fits q.options.nullHandling q.groupBy q.options.numGroupsLimit
    (Document.matching segments)

variable {segments segments' : List MemorySegment}

theorem Grouping.subset (h : q.Grouping segments) (hsubset : segments' ⊆ segments) :
    q.Grouping segments' where
  single s hs := h.single s (hsubset hs)
  answerable s hs := h.answerable s (hsubset hs)
  fits := h.fits.of_subset fun d hd => by
    obtain ⟨s, hs, hd⟩ := List.mem_flatMap.1 hd
    exact List.mem_flatMap.2 ⟨s, hsubset hs, hd⟩

end Query

namespace Broker

open GroupTable

variable {s : MemorySegment} {segments : List MemorySegment}

/-! ## Servers -/

/-- **A segment tabulates its matching documents.** -/
theorem tabulates_of_segment (hkind : q.kind = .groupBy) (h : q.Grouping [s]) :
    ∃ r t, (q.runOver s.segment).value = .ok r ∧
      r.schema.width = q.groupBy.length + q.functions.length ∧ r.rows = .groupBy t ∧
      q.Tabulates (Document.matching [s]) t := by
  have hmem : s ∈ [s] := List.mem_singleton_self s
  have hdocuments : Document.matching [s] = s.matching.map (Document.mk s) := List.append_nil _
  have hfits := h.fits
  rw [hdocuments] at hfits ⊢
  obtain ⟨r, t, hrun, hrows, htabulates⟩ :=
    GroupBy.tabulates_run (h.single s hmem) (h.answerable s hmem) hfits
  refine ⟨r, t, ?_, GroupBy.width_run hrun, hrows, htabulates⟩
  rw [Query.runOver, hkind]
  exact hrun

/-- **A server tabulates its segments' matching documents.** -/
theorem tabulates_of_server (hkind : q.kind = .groupBy) (h : q.Grouping (s :: segments)) :
    ∃ t, (q.run ((s :: segments).map MemorySegment.segment)).value.schema.width =
        q.groupBy.length + q.functions.length ∧
      (q.run ((s :: segments).map MemorySegment.segment)).value.rows = .groupBy t ∧
      q.Tabulates (Document.matching (s :: segments)) t := by
  have hone : ∀ u ∈ s :: segments, ∃ result : PartialResult × GroupTable,
      (q.runOver u.segment).value = .ok result.1 ∧
      result.1.schema.width = q.groupBy.length + q.functions.length ∧
      result.1.rows = .groupBy result.2 ∧ q.Tabulates (Document.matching [u]) result.2 := by
    intro u hu
    obtain ⟨r, t, hrest⟩ := tabulates_of_segment hkind
      (h.subset (List.cons_subset.2 ⟨hu, List.nil_subset _⟩))
    exact ⟨(r, t), hrest⟩
  obtain ⟨results, hresults⟩ := exists_forall₂ hone
  obtain ⟨⟨first, t⟩, results, ⟨hfirst, hwidth, hrows, ht⟩, hrest, rfl⟩ :=
    List.forall₂_cons_left_iff.1 hresults
  have htables : List.Forall₂ q.Tabulates (segments.map fun u => Document.matching [u])
      (results.map Prod.snd) := by
    rw [List.forall₂_map_left_iff, List.forall₂_map_right_iff]
    exact hrest.imp fun _ _ hresult => hresult.2.2.2
  have hall : Document.matching [s] ++ (segments.map fun u => Document.matching [u]).flatten =
      Document.matching (s :: segments) := by
    simp [Document.matching, List.flatMap_def]
  obtain ⟨merged, hmerged, htabulates⟩ :=
    Combiner.tabulates_foldlM_mergeGroups (c := q.combiner) htables ht (hall ▸ h.fits)
  -- what merging does to tables it does to the results that hold them
  have hpayloads : List.Forall₂ (fun (r : PartialResult) t => r.rows = .groupBy t)
      (results.map Prod.fst) (results.map Prod.snd) := by
    rw [List.forall₂_map_left_iff, List.forall₂_map_right_iff, List.forall₂_same]
    intro result hresult
    obtain ⟨u, -, hu⟩ := exists_of_mem_right hrest hresult
    exact hu.2.2.1
  obtain ⟨r, hr, hschema, hmergedRows⟩ := Combiner.exists_foldlM_mergeResult
    (fun _ => ResultRows.noConfusion) Combiner.mergeRows_groupBy hpayloads hrows hmerged
  have houtcomes : List.Forall₂ (fun s r => (q.runOver (MemorySegment.segment s)).value = .ok r)
      (s :: segments) (first :: results.map Prod.fst) := by
    refine .cons hfirst ?_
    rw [List.forall₂_map_right_iff]
    exact hrest.imp fun _ _ hresult => hresult.1
  rw [Query.value_run_of_outcomes houtcomes hr]
  exact ⟨merged, by rw [hschema]; exact hwidth, hmergedRows, hall ▸ htabulates⟩

/-! ## Tables -/

/-- **A server's result makes a table** when there are no more different
tuples than a table can number. -/
theorem exists_tableOfDocuments_iff (hkind : q.kind = .groupBy) (h : q.Grouping segments) :
    (∃ t, DataTable.ofPartial (q.run (segments.map MemorySegment.segment)).value = .ok t) ↔
      (Key.differentTuples ((Document.matching segments).map q.documentTuple)).length ≤
        Number.bound32 := by
  rw [DataTable.exists_ofPartial_iff]
  cases segments with
  | nil =>
    rw [List.map_nil, Query.value_run_nil]
    simp [PartialResult.empty, ResultRows.rows, Document.matching, Key.differentTuples]
  | cons s segments =>
    obtain ⟨t, hwidth, hrows, htabulates⟩ := tabulates_of_server hkind h
    have hrow : ∀ row ∈ t.rows, row.length = q.groupBy.length + q.functions.length := by
      intro row hrow
      obtain ⟨g, hg, rfl⟩ := List.mem_map.1 hrow
      rw [List.length_append, List.length_map, ((htabulates.sound h.fits).proper g hg).1,
        (htabulates.summarizes g hg).length_eq]
    rw [hrows, hwidth]
    show (∀ row ∈ t.rows, _) ∧ t.rows.length ≤ _ ↔ _
    have hlength : t.rows.length = t.size := List.length_map _
    rw [and_iff_right hrow, hlength, htabulates.size_eq]
    rfl

/-- A table whose rows are those of a group table of some documents. -/
def TableOfDocuments (q : Query) (documents : List Document) (t : DataTable) : Prop :=
  ∃ groups, q.Tabulates documents groups ∧ t.allRows = groups.rows

/-- **What a server hands on** is a table of its documents, or has no
columns if it has no segments. -/
theorem tableOfDocuments_server {t : DataTable} (hkind : q.kind = .groupBy)
    (hcolumns : q.groupBy ≠ [] ∨ q.functions ≠ []) (h : q.Grouping segments)
    (ht : DataTable.ofPartial (q.run (segments.map MemorySegment.segment)).value = .ok t) :
    (segments = [] ∧ t.schema.isEmpty) ∨ (t.schema.isEmpty = false ∧
      TableOfDocuments q (Document.matching segments) t) := by
  obtain ⟨hrows, hschema⟩ := DataTable.allRows_ofPartial ht
  cases segments with
  | nil =>
    rw [List.map_nil, Query.value_run_nil] at hschema
    exact .inl ⟨rfl, by rw [hschema]; rfl⟩
  | cons s segments =>
    obtain ⟨groups, hwidth, hresult, htabulates⟩ := tabulates_of_server hkind h
    rw [hresult] at hrows
    exact .inr ⟨isEmpty_schema_of_width hcolumns (hschema ▸ hwidth), groups, htabulates, hrows⟩

/-! ## The broker -/

/-- **The broker puts tables of documents together** into the table of all
of them. -/
theorem tabulates_mergedGroups {parts : List (List Document)} {tables : List DataTable}
    (htables : List.Forall₂ (TableOfDocuments q) parts tables)
    (hfits : GroupBy.Fits q.options.nullHandling q.groupBy q.options.numGroupsLimit parts.flatten) :
    ∃ merged, mergedGroups q tables = .ok merged ∧ q.Tabulates parts.flatten merged := by
  obtain ⟨groups, hgroups, hshown⟩ := exists_forall₂_between htables
  rw [mergedGroups, allRows_eq_flatMap hshown]
  have hsound : ∀ t ∈ groups, SoundFor q t := by
    intro t ht
    obtain ⟨part, hpart, htabulates⟩ := exists_of_mem_right hgroups ht
    exact htabulates.sound (hfits.of_subset fun d hd => List.mem_flatten.2 ⟨part, hpart, hd⟩)
  cases hgroups with
  | nil => exact ⟨.empty, rfl, .empty⟩
  | @cons part first parts rest hfirst hrest =>
    obtain ⟨merged, hmerged, htabulates⟩ :=
      Combiner.tabulates_foldlM_mergeGroups (c := q.combiner) hrest hfirst hfits
    obtain ⟨hfirstSound, hrestSound⟩ := List.forall_mem_cons.1 hsound
    exact ⟨merged, (foldlM_addGroup_of_merge hfirstSound hrestSound hmerged).1, htabulates⟩

/-- The documents of some servers are those of all their segments. -/
theorem flatten_map_matching (servers : List (List MemorySegment)) :
    (servers.map Document.matching).flatten = Document.matching servers.flatten := by
  induction servers with
  | nil => rfl
  | cons server servers ih =>
    rw [List.map_cons, List.flatten_cons, List.flatten_cons, ih]
    exact List.flatMap_append.symm

/-- The columns of an answer that shows groups: the keys under the names of
the table's, and the functions' final values. -/
def groupSchema (q : Query) (schema : Schema) : Schema :=
  ⟨schema.columns.take q.groupBy.length ++ finalColumns q.functions⟩

/-- Summaries are final values. -/
theorem finalizeRow_ok {nullHandling : Bool} {documents : List Document}
    {functions : List AggregateFunction} {row : Row}
    (h : List.Forall₂ (Summarizes nullHandling documents) functions row) :
    finalizeRow functions row = .ok row := by
  unfold finalizeRow
  induction h with
  | nil => rfl
  | cons hcell _ ih =>
    rw [List.zip_cons_cons, List.mapM_cons]
    dsimp only
    rw [hcell.finalize, ih]
    rfl

/-- **What is shown** of groups without an order are their rows from
`offset` on, up to the limit. -/
theorem reduceGroupBy_of_tabulates (hplain : q.orderBy = []) (schema : Schema)
    {tables : List DataTable} {documents : List Document} {groups : GroupTable}
    (hgroups : mergedGroups q tables = .ok groups) (h : q.Tabulates documents groups) :
    reduceGroupBy q schema tables = ResultTable.render (groupSchema q schema)
      ((groups.rows.drop q.options.offset).take q.options.limit) (groupSchema q schema).names := by
  have hrows : (groups.groups.mapM fun g =>
      (finalizeRow q.functions g.2).bind fun row => .ok (g.1.map Key.cell ++ row)) =
        .ok groups.rows := by
    refine Except.mapM_eq_ok.2 ?_
    rw [GroupTable.rows, List.forall₂_map_right_iff, List.forall₂_same]
    intro g hg
    rw [finalizeRow_ok (h.summarizes g hg)]
    rfl
  rw [reduceGroupBy, hgroups, hplain]
  show (groups.groups.mapM fun g =>
    (finalizeRow q.functions g.2).bind fun row => .ok (g.1.map Key.cell ++ row)).bind _ = _
  rw [hrows]
  rfl

/-- **A grouping loses, doubles and mixes no group.** However segments are
spread over servers, as long as the different key tuples of their matching
documents fit the group limit: every server's result makes a table unless
it has more groups than a table can number, and from the tables the broker
gets one group for every tuple of a matching document and none else. The
groups ascend by their tuples, null after all other keys, and the cells of
a group summarize the documents of its tuple: their number, the number of
those that are not null in a column, the doubles of the least and the
greatest integer. Without an order these are what the answer shows, from
`offset` on. Tables of a query that has neither keys nor functions have no
columns, and carry no groups. -/
theorem groups_of_servers (q : Query) (hkind : q.kind = .groupBy) (hplain : q.orderBy = [])
    (hcolumns : q.groupBy ≠ [] ∨ q.functions ≠ []) (servers : List (List MemorySegment))
    (hsingle : ∀ s ∈ servers.flatten, ∀ e ∈ q.groupBy, s.isSingle e)
    (hanswers : ∀ s ∈ servers.flatten, ∀ f ∈ q.functions, f.Answerable q.options.nullHandling s)
    (hfits : (Key.differentTuples
      ((Document.matching servers.flatten).map q.documentTuple)).length ≤
        q.options.numGroupsLimit) :
    ((∃ tables, List.Forall₂ (fun server t =>
        DataTable.ofPartial (q.run (server.map MemorySegment.segment)).value = .ok t)
        servers tables) ↔
      ∀ server ∈ servers, (Key.differentTuples
        ((Document.matching server).map q.documentTuple)).length ≤ Number.bound32) ∧
    (∀ key : Key, key.cell ≠ .null → key.compare (Cell.key .null) = .lt) ∧
    ∀ tables, List.Forall₂ (fun server t =>
        DataTable.ofPartial (q.run (server.map MemorySegment.segment)).value = .ok t)
        servers tables →
      let columned := tables.filter fun t => !t.schema.isEmpty
      let schema := (columned.head?.map DataTable.schema).getD .empty
      ∃ groups, mergedGroups q columned = .ok groups ∧
        q.Tabulates (Document.matching servers.flatten) groups ∧
        (servers.flatten ≠ [] → resultTable q tables = ResultTable.render (groupSchema q schema)
          ((groups.rows.drop q.options.offset).take q.options.limit)
          (groupSchema q schema).names) := by
  have hgrouping : q.Grouping servers.flatten := ⟨hsingle, hanswers, hfits⟩
  have hserver : ∀ server ∈ servers, q.Grouping server := fun server hserver =>
    hgrouping.subset fun s hs => List.mem_flatten.2 ⟨server, hserver, hs⟩
  refine ⟨⟨?_, fun hsizes => ?_⟩, fun key => Key.compare_null, fun tables htables => ?_⟩
  · rintro ⟨tables, htables⟩ server hmem
    obtain ⟨t, -, ht⟩ := exists_of_mem_right htables.flip hmem
    exact (exists_tableOfDocuments_iff hkind (hserver server hmem)).1 ⟨t, ht⟩
  · exact exists_forall₂ fun server hmem =>
      (exists_tableOfDocuments_iff hkind (hserver server hmem)).2 (hsizes server hmem)
  obtain ⟨busy, hbusy, hbusyTables⟩ := exists_busy htables fun server hmem t ht =>
    tableOfDocuments_server hkind hcolumns (hserver server hmem) ht
  obtain ⟨merged, hmerged, htabulates⟩ := tabulates_mergedGroups
    (List.forall₂_map_left_iff.2 hbusyTables) (by rw [flatten_map_matching, hbusy]; exact hfits)
  rw [flatten_map_matching, hbusy] at htabulates
  refine ⟨merged, hmerged, htabulates, fun hsegments => ?_⟩
  cases hcolumned : tables.filter fun t => !t.schema.isEmpty with
  | nil =>
    rw [hcolumned, List.forall₂_nil_right_iff] at hbusyTables
    rw [← hbusy, hbusyTables] at hsegments
    exact absurd rfl hsegments
  | cons first rest =>
    rw [hcolumned] at hmerged
    rw [resultTable, hcolumned, reduceTables]
    simp only [hkind]
    exact reduceGroupBy_of_tabulates hplain first.schema hmerged htabulates

/-- The number of documents for each integer, and the greatest of them, for
two integers at most. -/
def tallied : Query where
  kind := .groupBy
  groupBy := ["k"]
  functions := [.count none, .max "k"]
  options := { numGroupsLimit := 2 }

/-- Of the integers 1, 2 and 2 on three servers there are two groups, and
that of 2 has two documents. -/
theorem groups_of_servers_two :
    let servers := [[integers [1, 2] (by decide)], [], [integers [2] (by decide)]]
    ∃ tables groups, List.Forall₂ (fun server t =>
        DataTable.ofPartial (tallied.run (server.map MemorySegment.segment)).value = .ok t)
        servers tables ∧
      mergedGroups tallied (tables.filter fun t => !t.schema.isEmpty) = .ok groups ∧
      groups.size = 2 ∧ ∃ g ∈ groups.groups, Key.sameTuple g.1 [(Cell.int 2).key] ∧
        g.2.head? = some (.long 2) := by
  intro servers
  have hintegers : ∀ s ∈ servers.flatten, ∃ values h, s = integers values h := by
    intro s hs
    rcases List.mem_cons.1 hs with rfl | hs
    · exact ⟨_, _, rfl⟩
    · exact ⟨_, _, List.mem_singleton.1 hs⟩
  have hsingle : ∀ s ∈ servers.flatten, ∀ e ∈ tallied.groupBy, s.isSingle e := by
    intro s hs e he
    obtain ⟨values, h, rfl⟩ := hintegers s hs
    obtain rfl := List.mem_singleton.1 he
    rfl
  have hanswers : ∀ s ∈ servers.flatten, ∀ f ∈ tallied.functions,
      f.Answerable tallied.options.nullHandling s := by
    intro s hs f hf
    obtain ⟨values, h, rfl⟩ := hintegers s hs
    rcases List.mem_cons.1 hf with rfl | hf
    · exact AggregateFunction.answerable_count fun _ h => nomatch h
    · obtain rfl := List.mem_singleton.1 hf
      exact AggregateFunction.answerable_of_integers (.inr rfl) rfl rfl (.inl rfl) fun _ => rfl
  obtain ⟨htables, -, hgroups⟩ := groups_of_servers tallied rfl rfl (.inl (List.cons_ne_nil _ _))
    servers hsingle hanswers (by decide +kernel)
  obtain ⟨tables, ht⟩ := htables.2 (by decide +kernel)
  obtain ⟨groups, hmerged, htabulates, -⟩ := hgroups tables ht
  refine ⟨tables, groups, ht, hmerged, htabulates.size_eq.trans (by decide +kernel), ?_⟩
  -- the group of the only document of the third server
  have hlast : Document.mk (integers [2] (by decide)) 0 ∈ Document.matching servers.flatten :=
    List.mem_flatMap.2 ⟨_, List.mem_cons_of_mem _ List.mem_cons_self,
      List.mem_map_of_mem (by decide)⟩
  obtain ⟨g, hg, hsame⟩ := htabulates.found _ hlast
  refine ⟨g, hg, hsame, ?_⟩
  obtain ⟨cell, rest, hcount, -, hrow⟩ := List.forall₂_cons_left_iff.1 (htabulates.summarizes g hg)
  rw [hrow, List.head?_cons, hcount, Document.ofTuple_congr hsame]
  decide +kernel

end Broker

end SegmentQuery
