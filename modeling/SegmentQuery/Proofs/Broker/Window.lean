import SegmentQuery.Proofs.Broker.Interchange
import SegmentQuery.Proofs.Selection.Keys
import SegmentQuery.Proofs.Selection.Merging
import SegmentQuery.Proofs.Selection.Strategies
/-!
# Ordered selections over many servers

Segments keep the best of their rows, servers the best of what their
segments kept, and the broker the best of what the servers sent. What is
left is a window on all matching rows in order: the best `offset + limit`
of them without the first `offset`, wherever the segments are.
-/


namespace SegmentQuery

variable {q : Query}

namespace Query

/-- The rows that a query matches in some segments. -/
def matchingRows (q : Query) (segments : List MemorySegment) : List Row :=
  segments.flatMap fun s => s.matching.map (s.row q.options.nullHandling (q.fetched s))

theorem matchingRows_flatten (servers : List (List MemorySegment)) :
    q.matchingRows servers.flatten = (servers.map q.matchingRows).flatten := by
  induction servers with
  | nil => rfl
  | cons server servers ih =>
    rw [List.flatten_cons, List.map_cons, List.flatten_cons, ← ih]
    exact List.flatMap_append

theorem matchingRows_singleton (s : MemorySegment) : q.matchingRows [s] =
    s.matching.map (s.row q.options.nullHandling (q.fetched s)) := List.append_nil _

/-- What matches in each segment is what matches in all. -/
theorem flatten_matchingRows (segments : List MemorySegment) :
    (segments.map fun s => q.matchingRows [s]).flatten = q.matchingRows segments := by
  rw [← List.flatMap_def]
  exact List.flatMap_congr fun s _ => matchingRows_singleton s

/-- Segments of one table whose rows a query orders in one way. -/
structure Orders (q : Query) (s : MemorySegment) (segments : List MemorySegment) : Prop where
  like : ∀ t ∈ segments, s.SameColumns t
  unsorted : ∀ t ∈ segments, t.sortedColumns = []
  fetchable : ∀ t ∈ segments, t.Fetchable (q.fetched t)

variable {s t : MemorySegment} {segments : List MemorySegment}

theorem Orders.subset {segments' : List MemorySegment} (h : q.Orders s segments)
    (hsubset : segments' ⊆ segments) : q.Orders s segments' where
  like t ht := h.like t (hsubset ht)
  unsorted t ht := h.unsorted t (hsubset ht)
  fetchable t ht := h.fetchable t (hsubset ht)

/-- Any segment of the table will do. -/
theorem Orders.of_mem (h : q.Orders s segments) (ht : t ∈ segments) : q.Orders t segments where
  like u hu name := (h.like t ht name).symm.trans (h.like u hu name)
  unsorted := h.unsorted
  fetchable := h.fetchable

/-- An order whose keys look at single-value columns accepts the rows of
segments of one table. -/
theorem Orders.validate {order : RowOrder} (h : q.Orders s segments)
    (hkeys : ∀ key ∈ order.keys, ∃ e, (q.fetched s)[key.1]? = some e ∧ s.isSingle e) :
    ∀ row ∈ q.matchingRows segments, order.validate row = .ok () := by
  intro row hrow
  obtain ⟨t, ht, hrow⟩ := List.mem_flatMap.1 hrow
  obtain ⟨d, -, rfl⟩ := List.mem_map.1 hrow
  have hlike := h.like t ht
  rw [← hlike.fetched_eq q]
  refine Selection.Plan.validate_of_single (fun key hkey => ?_) _ _
  obtain ⟨e, hget, hsingle⟩ := hkeys key hkey
  exact ⟨e, hget, (hlike.isSingle_eq e) ▸ hsingle⟩

/-- Matching rows are as wide as what is fetched. -/
theorem Orders.length_row (h : q.Orders s segments) :
    ∀ row ∈ q.matchingRows segments, row.length = (q.fetched s).length := by
  intro row hrow
  obtain ⟨t, ht, hrow⟩ := List.mem_flatMap.1 hrow
  obtain ⟨d, -, rfl⟩ := List.mem_map.1 hrow
  rw [MemorySegment.length_row, (h.like t ht).fetched_eq q]

end Query

/-! ## Segments -/

namespace Broker

open OrderedRows

variable {s : MemorySegment} {segments : List MemorySegment}

/-- **A segment keeps the best of its matching rows.** -/
theorem best_of_segment (hkind : q.kind = .selection) (hordered : q.orderBy ≠ [])
    (hlimit : 0 < q.options.limit) (hunsorted : s.sortedColumns = [])
    (hfetch : s.Fetchable (q.fetched s)) :
    ∃ r rows, (q.runOver s.segment).value = .ok r ∧
      Selection.schema s.segment (q.fetched s) = .ok r.schema ∧ r.rows = .orderedSelection rows ∧
      (∀ key ∈ rows.order.keys, ∃ e, (q.fetched s)[key.1]? = some e ∧ s.isSingle e) ∧
      Best (q.rowOrder s) q.options.rowsToKeep (q.matchingRows [s]) rows := by
  obtain ⟨schema, hschema⟩ := Selection.fetchable_iff.1 hfetch
  obtain ⟨order, stats, horder, hrun⟩ := Selection.Plan.run_whole (s := s) rfl
    Selection.Plan.orderWidth_make_le (Selection.Plan.rowsToKeep_pos hlimit)
    (Selection.Plan.strategy_ne_preSorted hordered hunsorted) hschema
  have hplanned : (q.orderBy.isEmpty || q.options.limit == 0) = false := by
    rw [Bool.or_eq_false_iff]
    exact ⟨by simpa using hordered, by simpa using Nat.pos_iff_ne_zero.1 hlimit⟩
  have hover : (q.runOver s.segment).value =
      (Selection.Plan.make s.segment q.select q.orderBy q.options).run.value := by
    rw [Query.runOver, hkind]
    simp only [hplanned, Bool.false_eq_true, if_false]
  refine ⟨_, _, hover.trans hrun, hschema, rfl, ?_, ?_⟩
  · rw [order_foldl_put]
    exact Selection.Plan.single_of_order rfl hfetch horder
  · rw [Query.matchingRows_singleton]
    exact best_foldl_put (Selection.Plan.compare_order hlimit hfetch horder) _ _

/-! ## Servers -/

/-- **A server keeps the best of its segments' matching rows.** -/
theorem best_of_server (hkind : q.kind = .selection) (hordered : q.orderBy ≠ [])
    (hlimit : 0 < q.options.limit) (h : q.Orders s (s :: segments)) :
    ∃ rows, Selection.schema s.segment (q.fetched s) =
        .ok (q.run ((s :: segments).map MemorySegment.segment)).value.schema ∧
      (q.run ((s :: segments).map MemorySegment.segment)).value.rows = .orderedSelection rows ∧
      Best (q.rowOrder s) q.options.rowsToKeep (q.matchingRows (s :: segments)) rows := by
  obtain ⟨hunsorted, hunsorted'⟩ := List.forall_mem_cons.1 h.unsorted
  obtain ⟨hfetch, hfetch'⟩ := List.forall_mem_cons.1 h.fetchable
  obtain ⟨hlike, hlike'⟩ := List.forall_mem_cons.1 h.like
  obtain ⟨first, rows, hfirst, hschema, hrows, hkeys, hbest⟩ :=
    best_of_segment hkind hordered hlimit hunsorted hfetch
  -- what the other segments yield
  have hothers : ∀ t ∈ segments, ∃ result : PartialResult × OrderedRows,
      (q.runOver t.segment).value = .ok result.1 ∧ result.1.rows = .orderedSelection result.2 ∧
      Best (q.rowOrder s) q.options.rowsToKeep (q.matchingRows [t]) result.2 := by
    intro t ht
    obtain ⟨r, more, hrun, -, hr, -, hmore⟩ :=
      best_of_segment hkind hordered hlimit (hunsorted' t ht) (hfetch' t ht)
    exact ⟨(r, more), hrun, hr, (hlike' t ht).rowOrder_eq q ▸ hmore⟩
  obtain ⟨results, hresults⟩ := exists_forall₂ hothers
  have hsources : List.Forall₂ (Best (q.rowOrder s) q.options.rowsToKeep)
      (segments.map fun t => q.matchingRows [t]) (results.map Prod.snd) := by
    rw [List.forall₂_map_left_iff, List.forall₂_map_right_iff]
    exact hresults.imp fun _ _ hresult => hresult.2.2
  -- the first segment's order accepts the rows of the others
  have haccepts : ∀ more ∈ segments.map fun t => q.matchingRows [t], ∀ row ∈ more,
      rows.order.validate row = .ok () := by
    intro more hmore row hrow
    refine h.validate hkeys row (List.mem_append_right _ ?_)
    show row ∈ q.matchingRows segments
    rw [← Query.flatten_matchingRows]
    exact List.mem_flatten.2 ⟨more, hmore, hrow⟩
  obtain ⟨merged, hmerged, hall⟩ := Best.foldlM_merge hsources hbest haccepts
  have hpayloads : List.Forall₂ (fun (r : PartialResult) (rows : OrderedRows) =>
      r.rows = .orderedSelection rows) (results.map Prod.fst) (results.map Prod.snd) := by
    rw [List.forall₂_map_left_iff, List.forall₂_map_right_iff, List.forall₂_same]
    intro result hresult
    obtain ⟨t, -, ht⟩ := exists_of_mem_right hresults hresult
    exact ht.2.1
  obtain ⟨r, hr, hsame, hshown⟩ := foldlM_mergeResult (c := q.combiner) hrows hpayloads hmerged
  have houtcomes : List.Forall₂ (fun s r => (q.runOver (MemorySegment.segment s)).value = .ok r)
      (s :: segments) (first :: results.map Prod.fst) := by
    refine .cons hfirst ?_
    rw [List.forall₂_map_right_iff]
    exact hresults.imp fun _ _ hresult => hresult.1
  rw [Query.value_run_of_outcomes houtcomes hr]
  refine ⟨merged, hsame ▸ hschema, hshown, ?_⟩
  rw [Query.flatten_matchingRows, Query.matchingRows_singleton] at hall
  exact hall

/-! ## Tables -/

/-- **A server's result makes a table** when no more rows are kept than a
table can number. -/
theorem exists_table_iff (hkind : q.kind = .selection) (hordered : q.orderBy ≠ [])
    (hlimit : 0 < q.options.limit) (h : ∀ s ∈ segments, q.Orders s segments) :
    (∃ t, DataTable.ofPartial (q.run (segments.map MemorySegment.segment)).value = .ok t) ↔
      min q.options.rowsToKeep (q.matchingRows segments).length ≤ Number.bound32 := by
  rw [DataTable.exists_ofPartial_iff]
  cases segments with
  | nil =>
    rw [List.map_nil, Query.value_run_nil]
    simp [PartialResult.empty, ResultRows.rows, Query.matchingRows]
  | cons t segments =>
    have hfirst := h t List.mem_cons_self
    obtain ⟨rows, hschema, hrows, hbest⟩ := best_of_server hkind hordered hlimit hfirst
    obtain ⟨dropped, hshown⟩ := hbest.isBest_sorted
    have hwidth : ∀ row ∈ rows.sorted, row.length =
        (q.run ((t :: segments).map MemorySegment.segment)).value.schema.width := by
      intro row hrow
      rw [Selection.width_schema hschema]
      exact hfirst.length_row row (hshown.perm.mem_iff.2 (List.mem_append_left dropped hrow))
    rw [hrows]
    show (∀ row ∈ rows.sorted, _) ∧ rows.sorted.length ≤ _ ↔ _
    rw [hshown.length, and_iff_right hwidth]

/-- A table of the best rows that a query matches in some segments. -/
structure TableOf (q : Query) (s : MemorySegment) (segments : List MemorySegment)
    (t : DataTable) : Prop where
  schema : ∃ u, s.SameColumns u ∧ Selection.schema u.segment (q.fetched u) = .ok t.schema
  best : ∃ dropped, IsBest (q.rowOrder s).compare q.options.rowsToKeep (q.matchingRows segments)
    t.allRows dropped

/-- Such a table has columns: those of the ORDER BY list at least. -/
theorem TableOf.isEmpty_schema {t : DataTable} (hordered : q.orderBy ≠ [])
    (hlimit : 0 < q.options.limit) (h : TableOf q s segments t) : t.schema.isEmpty = false := by
  obtain ⟨u, -, hschema⟩ := h.schema
  obtain ⟨item, rest, hcons⟩ := List.exists_cons_of_ne_nil hordered
  have hitem : item ∈ q.orderBy := hcons ▸ List.mem_cons_self
  have hpos := List.length_pos_of_mem (Query.mem_fetched (s := u) hlimit hitem)
  rw [← Selection.width_schema hschema] at hpos
  exact List.isEmpty_eq_false_iff.2 (List.ne_nil_of_length_pos hpos)

/-- **What a server hands on** is a table of its best rows, or has no
columns if it has no segments. -/
theorem tableOf_server {t : DataTable} (hkind : q.kind = .selection) (hordered : q.orderBy ≠ [])
    (hlimit : 0 < q.options.limit) (h : q.Orders s segments)
    (ht : DataTable.ofPartial (q.run (segments.map MemorySegment.segment)).value = .ok t) :
    (segments = [] ∧ t.schema.isEmpty) ∨ TableOf q s segments t := by
  obtain ⟨hrows, hschema⟩ := DataTable.allRows_ofPartial ht
  cases segments with
  | nil =>
    rw [List.map_nil, Query.value_run_nil] at hschema
    exact .inl ⟨rfl, by rw [hschema]; rfl⟩
  | cons u segments =>
    have hlike := h.like u List.mem_cons_self
    obtain ⟨rows, hfirst, hresult, hbest⟩ :=
      best_of_server hkind hordered hlimit (h.of_mem List.mem_cons_self)
    rw [hresult] at hrows
    refine .inr ⟨⟨u, hlike, hschema ▸ hfirst⟩, ?_⟩
    rw [hrows, hlike.rowOrder_eq q]
    exact hbest.isBest_sorted

/-- The servers with segments are those whose tables have columns. -/
theorem tableOf_servers {servers : List (List MemorySegment)} {tables : List DataTable}
    (hkind : q.kind = .selection) (hordered : q.orderBy ≠ []) (hlimit : 0 < q.options.limit)
    (h : ∀ server ∈ servers, q.Orders s server)
    (htables : List.Forall₂ (fun server t =>
      DataTable.ofPartial (q.run (server.map MemorySegment.segment)).value = .ok t)
      servers tables) :
    ∃ busy, busy.flatten = servers.flatten ∧
      List.Forall₂ (TableOf q s) busy (tables.filter fun t => !t.schema.isEmpty) :=
  exists_busy htables fun server hserver _ ht =>
    (tableOf_server hkind hordered hlimit (h server hserver) ht).imp_right fun htable =>
      ⟨htable.isEmpty_schema hordered hlimit, htable⟩

/-! ## The broker -/

/-- **The broker keeps the best of the rows in the tables.** -/
theorem exists_orderedRows {schema : Schema} {busy : List (List MemorySegment)}
    {tables : List DataTable} (hlimit : 0 < q.options.limit) (h : q.Orders s busy.flatten)
    (horder : selectionOrder q.orderBy schema = q.rowOrder s)
    (htables : List.Forall₂ (TableOf q s) busy tables) :
    ∃ kept, orderedRows q schema tables = .ok (kept.sorted.drop q.options.offset) ∧
      Best (q.rowOrder s) q.options.rowsToKeep (q.matchingRows busy.flatten) kept := by
  have hbests : List.Forall₂ (fun all kept => ∃ dropped,
        IsBest (q.rowOrder s).compare q.options.rowsToKeep all kept dropped)
      (busy.map q.matchingRows) (tables.map DataTable.allRows) := by
    rw [List.forall₂_map_left_iff, List.forall₂_map_right_iff]
    exact htables.imp fun _ _ ht => ht.best
  have haccepts : ∀ row ∈ allRows tables, (q.rowOrder s).validate row = .ok () := by
    intro row hrow
    obtain ⟨t, ht, hrow⟩ := List.mem_flatMap.1 hrow
    obtain ⟨server, hserver, htable⟩ := exists_of_mem_right htables ht
    obtain ⟨dropped, hbest⟩ := htable.best
    refine (h.subset fun u hu => List.mem_flatten.2 ⟨server, hserver, hu⟩).validate
      (Query.single_of_rowOrder hlimit) row ?_
    exact hbest.perm.mem_iff.2 (List.mem_append_left dropped hrow)
  have hput := @best_foldl_put (q.rowOrder s) _ rfl q.options.rowsToKeep (allRows tables)
  refine ⟨_, ?_, { hput with best := ?_ }⟩
  · rw [orderedRows, horder]
    show (((empty (q.rowOrder s) q.options.rowsToKeep).offerAll (allRows tables)).toExcept >>= _) = _
    rw [offerAll_ok haccepts]
    rfl
  · obtain ⟨dropped, hbest⟩ := hput.best
    rw [Query.matchingRows_flatten]
    exact IsBest.flatten hbests [] hbest

section

variable {servers : List (List MemorySegment)} {tables : List DataTable}

/-- Servers without segments hand on no table with columns. -/
theorem filter_tables_eq_nil (hnil : servers.flatten = [])
    (htables : List.Forall₂ (fun server t =>
      DataTable.ofPartial (q.run (server.map MemorySegment.segment)).value = .ok t)
      servers tables) :
    tables.filter (fun t => !t.schema.isEmpty) = [] := by
  refine List.filter_eq_nil_iff.2 fun t ht => ?_
  obtain ⟨server, hserver, hrun⟩ := exists_of_mem_right htables ht
  rw [List.flatten_eq_nil_iff.1 hnil server hserver, List.map_nil, Query.value_run_nil] at hrun
  rw [(DataTable.allRows_ofPartial hrun).2]
  exact Bool.false_ne_true

/-- No table, no row. -/
theorem orderedRows_nil (q : Query) (schema : Schema) : orderedRows q schema [] = .ok [] := by
  have hsorted (order : RowOrder) (maximum : Nat) : (empty order maximum).sorted = [] :=
    List.mergeSort_nil
  exact congrArg Except.ok ((congrArg _ (hsorted _ _)).trans List.drop_nil)

/-- **The broker keeps the best of all matching rows**, under the schema of
the first table with columns. -/
theorem best_of_servers (hkind : q.kind = .selection) (hordered : q.orderBy ≠ [])
    (hlimit : 0 < q.options.limit) (hs : s ∈ servers.flatten) (h : q.Orders s servers.flatten)
    (htables : List.Forall₂ (fun server t =>
      DataTable.ofPartial (q.run (server.map MemorySegment.segment)).value = .ok t)
      servers tables) :
    ∃ first rest kept, tables.filter (fun t => !t.schema.isEmpty) = first :: rest ∧
      orderedRows q first.schema (first :: rest) = .ok (kept.sorted.drop q.options.offset) ∧
      Best (q.rowOrder s) q.options.rowsToKeep (q.matchingRows servers.flatten) kept := by
  obtain ⟨busy, hbusy, hbests⟩ := tableOf_servers hkind hordered hlimit
    (fun server hserver => h.subset fun t ht => List.mem_flatten.2 ⟨server, hserver, ht⟩) htables
  cases hcolumned : tables.filter fun t => !t.schema.isEmpty with
  | nil =>
    rw [hcolumned, List.forall₂_nil_right_iff] at hbests
    rw [← hbusy, hbests] at hs
    exact absurd hs List.not_mem_nil
  | cons first rest =>
    rw [hcolumned] at hbests
    obtain ⟨_, _, hfirst, -, -⟩ := List.forall₂_cons_right_iff.1 hbests
    -- the first table has the schema of some segment, which orders rows as `s` does
    obtain ⟨t, hlike, hschema⟩ := hfirst.schema
    have horder : selectionOrder q.orderBy first.schema = q.rowOrder s :=
      (selectionOrder_eq hlimit hschema).trans (hlike.rowOrder_eq q).symm
    obtain ⟨kept, hkept, hbest⟩ := exists_orderedRows hlimit (hbusy ▸ h) horder hbests
    exact ⟨first, rest, kept, rfl, hkept, hbusy ▸ hbest⟩

end

/-- A cut at the number of rows to keep is one at `offset + limit`, unless
that is too great a number and there are more rows than it. -/
theorem min_rowsToKeep {n : Nat} (options : Options)
    (h : n ≤ Counter.max64 ∨ options.offset + options.limit ≤ Counter.max64) :
    min options.rowsToKeep n = min (options.offset + options.limit) n := by
  rw [Options.rowsToKeep, Counter.add]
  omega

/-- **An ordered selection is a window on all matching rows in order.**
However the segments of a table are spread over servers: every server's
result makes a table unless it keeps more rows than a table can number,
and from the tables the broker gets the rows from `offset` to
`offset + limit` of all that match, nulls last. These are what its answer
shows. Counters have 64 bits: `offset + limit` or the number of rows that
match is one. -/
theorem orderedRows_of_servers (q : Query) (hkind : q.kind = .selection)
    (hordered : q.orderBy ≠ []) (hlimit : 0 < q.options.limit)
    (servers : List (List MemorySegment))
    (hcolumns : servers.flatten.Pairwise MemorySegment.SameColumns)
    (hunsorted : ∀ s ∈ servers.flatten, s.sortedColumns = [])
    (hfetch : ∀ s ∈ servers.flatten, s.Fetchable (q.fetched s))
    (hcount : (q.matchingRows servers.flatten).length ≤ Counter.max64 ∨
      q.options.offset + q.options.limit ≤ Counter.max64) :
    ((∃ tables, List.Forall₂ (fun server t =>
        DataTable.ofPartial (q.run (server.map MemorySegment.segment)).value = .ok t)
        servers tables) ↔
      ∀ server ∈ servers,
        min q.options.rowsToKeep (q.matchingRows server).length ≤ Number.bound32) ∧
    ∀ tables, List.Forall₂ (fun server t =>
        DataTable.ofPartial (q.run (server.map MemorySegment.segment)).value = .ok t)
        servers tables →
      let columned := tables.filter fun t => !t.schema.isEmpty
      let schema := (columned.head?.map DataTable.schema).getD .empty
      ∃ rows, orderedRows q schema columned = .ok rows ∧
        (servers.flatten ≠ [] → resultTable q tables =
          ResultTable.render schema rows (Selection.outputColumns q.select schema.names)) ∧
        (servers.flatten = [] → rows = []) ∧
        ∀ s ∈ servers.flatten, IsWindow (q.rowOrder s) q.options.offset q.options.limit
          (q.matchingRows servers.flatten) rows := by
  have horders : ∀ s ∈ servers.flatten, q.Orders s servers.flatten := fun s hs =>
    ⟨fun t ht => .of_pairwise hcolumns hs ht, hunsorted, hfetch⟩
  have hmem {server : List MemorySegment} (hserver : server ∈ servers) :
      server ⊆ servers.flatten := fun s hs => List.mem_flatten.2 ⟨server, hserver, hs⟩
  have htable : ∀ server ∈ servers, _ := fun server hserver =>
    exists_table_iff hkind hordered hlimit fun s hs =>
      (horders s (hmem hserver hs)).subset (hmem hserver)
  refine ⟨⟨?_, fun hsizes => ?_⟩, fun tables htables => ?_⟩
  · rintro ⟨tables, htables⟩ server hserver
    obtain ⟨t, -, ht⟩ := exists_of_mem_right htables.flip hserver
    exact (htable server hserver).1 ⟨t, ht⟩
  · exact exists_forall₂ fun server hserver => (htable server hserver).2 (hsizes server hserver)
  by_cases hnil : servers.flatten = []
  · rw [filter_tables_eq_nil hnil htables]
    refine ⟨[], orderedRows_nil q _, fun h => absurd hnil h, fun _ => rfl, fun s hs => ?_⟩
    rw [hnil] at hs
    exact absurd hs List.not_mem_nil
  · obtain ⟨s, hs⟩ := List.exists_mem_of_ne_nil _ hnil
    obtain ⟨first, rest, kept, hcolumned, hkept, hbest⟩ :=
      best_of_servers hkind hordered hlimit hs (horders s hs) htables
    rw [hcolumned]
    refine ⟨_, hkept, fun _ => ?_, fun h => absurd h hnil, fun s' hs' => ?_⟩
    · have hempty : q.orderBy.isEmpty = false := by simpa using hordered
      rw [resultTable, hcolumned, reduceTables]
      simp only [hkind, reduceSelection, hempty, Bool.false_eq_true, if_false, hkept]
      rfl
    · have hlike := (horders s hs).like s' hs'
      rw [← hlike.rowOrder_eq q]
      exact hbest.isWindow (min_rowsToKeep q.options hcount)

/-- The second and the third greatest integer. -/
def runnersUp : Query where
  kind := .selection
  select := ["k"]
  orderBy := [⟨"k", .desc⟩]
  options := { offset := 1, limit := 2 }

/-- Of the integers 3, 1, 2 and 3 on three servers two are runners-up. -/
theorem orderedRows_of_servers_three :
    let servers := [[integers [3, 1] (by decide), integers [2] (by decide)], [],
      [integers [3] (by decide)]]
    ∃ tables rows, List.Forall₂ (fun server t =>
        DataTable.ofPartial (runnersUp.run (server.map MemorySegment.segment)).value = .ok t)
        servers tables ∧
      orderedRows runnersUp (((tables.filter fun t => !t.schema.isEmpty).head?.map
          DataTable.schema).getD .empty) (tables.filter fun t => !t.schema.isEmpty) = .ok rows ∧
      rows.length = 2 ∧ rows.map (runnersUp.rowOrder (integers [2] (by decide))).keyTuple =
        [[(Cell.int 3).key], [(Cell.int 2).key]] := by
  intro servers
  have hfetch : ∀ s ∈ servers.flatten, s.Fetchable (runnersUp.fetched s) := by
    intro s hs
    obtain ⟨values, h, rfl⟩ : ∃ values h, s = integers values h := by
      rcases List.mem_cons.1 hs with rfl | hs
      · exact ⟨_, _, rfl⟩
      rcases List.mem_cons.1 hs with rfl | hs
      · exact ⟨_, _, rfl⟩
      exact ⟨_, _, List.mem_singleton.1 hs⟩
    intro e he
    obtain rfl := List.mem_singleton.1 he
    exact ⟨_, rfl, trivial⟩
  have hcolumns : servers.flatten.Pairwise MemorySegment.SameColumns := by
    simp [servers, sameColumns_integers]
  obtain ⟨htables, hrows⟩ := orderedRows_of_servers runnersUp rfl (by decide) (by decide) servers
    hcolumns (by decide) hfetch (.inr (by decide))
  obtain ⟨tables, ht⟩ := htables.2 (by decide +kernel)
  obtain ⟨rows, hok, -, -, hwindow⟩ := hrows tables ht
  have hshown := hwindow (integers [2] (by decide)) (List.mem_cons_of_mem _ List.mem_cons_self)
  -- the four rows in order
  have hperm : (runnersUp.matchingRows servers.flatten).Perm
      [[.int 3], [.int 3], [.int 2], [.int 1]] := by decide +kernel
  have hascending : List.Pairwise (fun a b =>
      ((runnersUp.rowOrder (integers [2] (by decide))).compare a b).isLE)
      [[.int 3], [.int 3], [.int 2], [.int 1]] := by decide +kernel
  have hsorted := map_key_mergeSort
    (runnersUp.rowOrder (integers [2] (by decide))).compare_eq_iff hperm hascending
  refine ⟨tables, rows, ht, hok, ?_, ?_⟩
  · exact hshown.length.trans (by decide +kernel)
  · rw [hshown.keys, RowOrder.sort, hsorted]
    decide +kernel

end Broker

end SegmentQuery
