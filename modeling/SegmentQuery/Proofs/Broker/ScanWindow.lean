import SegmentQuery.Proofs.Broker.Interchange
import SegmentQuery.Proofs.Broker.Window
import SegmentQuery.Proofs.Selection.Unordered
/-!
# Selections without an order over many servers

The rows are cut three times: where a segment has been scanned far
enough, where a server appends what its segments kept, and at the broker,
which drops the first `offset` of what is left. All cuts together are one
cut of the matching rows in server, segment and document order.
-/


namespace SegmentQuery

variable {q : Query}

namespace Query

/-- The rows that a selection without an order keeps of some segments. -/
def keptRows (q : Query) (segments : List MemorySegment) : List Row :=
  if q.options.limit = 0 then [] else (q.matchingRows segments).take q.options.rowsToKeep

theorem length_keptRows (hlimit : 0 < q.options.limit) (segments : List MemorySegment) :
    (q.keptRows segments).length = min q.options.rowsToKeep (q.matchingRows segments).length := by
  rw [keptRows, if_neg (Nat.pos_iff_ne_zero.1 hlimit), List.length_take]

/-- The rows from `offset` to `offset + limit` of those that match. -/
def scanWindow (q : Query) (segments : List MemorySegment) : List Row :=
  ((q.matchingRows segments).take q.options.rowsToKeep).drop q.options.offset

/-- Without a limit above zero there is no window. -/
theorem scanWindow_of_limit_eq_zero (hlimit : q.options.limit = 0) (segments : List MemorySegment) :
    q.scanWindow segments = [] := by
  have hkeep : q.options.rowsToKeep ≤ q.options.offset := by
    rw [Options.rowsToKeep, Counter.add, hlimit]
    omega
  rw [scanWindow, List.drop_eq_nil_iff, List.length_take]
  omega

end Query

namespace MemorySegment

variable {s t : MemorySegment}

/-- Segments of one table can all fetch some expressions, or none can. -/
theorem SameColumns.fetchable (h : s.SameColumns t) {expressions : List String}
    (hs : s.Fetchable expressions) : t.Fetchable expressions := by
  intro e he
  obtain ⟨c, hc, hread⟩ := hs e he
  have hsame := h e
  rw [ColumnSegment.metadata, ColumnSegment.metadata, hc] at hsame
  cases ht : t.find e with
  | error _ =>
    rw [ht] at hsame
    cases hsame
  | ok c' =>
    rw [ht] at hsame
    obtain ⟨htype, hsingle⟩ := Prod.mk.inj (Option.some.inj hsame)
    refine ⟨c', rfl, (@Selection.readable_iff c'.column c.name c.role).2 ?_⟩
    rw [← show c.column.type = c'.column.type from htype,
      ← show c.column.isSingleValue = c'.column.isSingleValue from hsingle]
    exact Selection.readable_iff.1 hread

end MemorySegment

namespace Combiner

/-- Segments that fail leave nothing to combine. -/
theorem foldl_step_errors (c : Combiner) (errors : List QueryError) (state : Combining) :
    ((errors.map Except.error).foldl c.step state).result = state.result := by
  induction errors generalizing state with
  | nil => rfl
  | cons e errors ih => rw [List.map_cons, List.foldl_cons, ih]; rfl

/-- **Where every segment fails there are no rows**, and no columns. -/
theorem combine_errors {c : Combiner} (errors : List QueryError) :
    (c.combine (errors.map .error)).value.schema = .empty ∧
      (c.combine (errors.map .error)).value.rows = .empty := by
  rw [combine]
  simp only [foldl_step_errors]
  exact ⟨rfl, rfl⟩

end Combiner

namespace Broker

/-! ## Cuts -/

/-- Lists cut off at a length, joined and cut off there, are joined and
cut off once. -/
theorem take_flatten_map_take {α : Type} (k : Nat) (xss : List (List α)) :
    (xss.map (List.take k)).flatten.take k = xss.flatten.take k := by
  induction xss with
  | nil => rfl
  | cons xs xss ih =>
    have hcut : k - (xs.take k).length = k - xs.length := by
      rw [List.length_take]
      omega
    -- the rest is cut at what is left of the length, which is not more
    have hrest : (xss.map (List.take k)).flatten.take (k - xs.length) =
        xss.flatten.take (k - xs.length) := by
      have hless : min (k - xs.length) k = k - xs.length := by omega
      rw [← hless, ← List.take_take, ih, List.take_take]
    rw [List.map_cons, List.flatten_cons, List.flatten_cons, List.take_append, List.take_append,
      List.take_take, Nat.min_self, hcut, hrest]

/-- **Appending what was cut off cuts off what was appended.** -/
theorem appendRows_take (limit : Nat) (rows more : List Row) :
    Combiner.appendRows limit (rows.take limit) (more.take limit) = (rows ++ more).take limit := by
  rw [Combiner.appendRows, List.take_append, List.take_take, List.length_take]
  congr 2
  omega

/-- A server's rows, appended segment by segment. -/
theorem foldl_appendRows_take (limit : Nat) (rows : List Row) (more : List (List Row)) :
    (more.map (List.take limit)).foldl (Combiner.appendRows limit) (rows.take limit) =
      (rows ++ more.flatten).take limit := by
  induction more generalizing rows with
  | nil => simp
  | cons next more ih =>
    rw [List.map_cons, List.foldl_cons, appendRows_take, ih, List.flatten_cons, List.append_assoc]

/-- Keeping rows of some segments, appended, is keeping rows of all. -/
theorem foldl_keptRows (q : Query) (s : MemorySegment) (segments : List MemorySegment) :
    (segments.map fun t => q.keptRows [t]).foldl (Combiner.appendRows q.options.rowsToKeep)
      (q.keptRows [s]) = q.keptRows (s :: segments) := by
  by_cases hlimit : q.options.limit = 0
  · simp only [Query.keptRows, if_pos hlimit]
    induction segments with
    | nil => rfl
    | cons t segments ih =>
      rw [List.map_cons, List.foldl_cons, Combiner.appendRows, List.take_nil, List.append_nil]
      exact ih
  · have hcut : (segments.map fun t => (q.matchingRows [t]).take q.options.rowsToKeep) =
        (segments.map fun t => q.matchingRows [t]).map (List.take q.options.rowsToKeep) := by
      rw [List.map_map]
      rfl
    simp only [Query.keptRows, if_neg hlimit]
    rw [hcut, foldl_appendRows_take]
    refine congrArg (List.take _) ?_
    simp only [Query.matchingRows_singleton, ← List.flatMap_def]
    rfl

/-- What servers keep is cut to the window of all that match. -/
theorem drop_take_keptRows (q : Query) (servers : List (List MemorySegment)) :
    ((servers.flatMap q.keptRows).take q.options.rowsToKeep).drop q.options.offset =
      q.scanWindow servers.flatten := by
  by_cases hlimit : q.options.limit = 0
  · have hnone : servers.flatMap q.keptRows = [] := by
      simp [Query.keptRows, if_pos hlimit]
    rw [hnone, Query.scanWindow_of_limit_eq_zero hlimit]
    simp
  · have hcut : servers.flatMap q.keptRows =
        ((servers.map q.matchingRows).map (List.take q.options.rowsToKeep)).flatten := by
      rw [List.map_map, ← List.flatMap_def]
      exact List.flatMap_congr fun server _ => if_neg hlimit
    rw [hcut, take_flatten_map_take, ← Query.matchingRows_flatten]
    rfl

/-! ## Segments -/

section

variable {s : MemorySegment} {segments : List MemorySegment}

/-- **A segment keeps the rows of its first matching documents**, if the
fetched columns are there. -/
theorem rows_of_segment (hkind : q.kind = .selection) (hplain : q.orderBy = [])
    (hfetch : s.Fetchable (q.fetched s)) :
    ∃ r, (q.runOver s.segment).value = .ok r ∧
      Selection.schema s.segment (q.fetched s) = .ok r.schema ∧
      r.rows = .selection (q.keptRows [s]) := by
  obtain ⟨schema, hschema⟩ := Selection.fetchable_iff.1 hfetch
  have hfetched : Selection.fetchedExpressions q.select [] q.options.limit s.segment.columnNames =
      q.fetched s := by
    rw [Query.fetched, hplain]
  rw [Query.runOver_selection hkind hplain, Query.keptRows]
  by_cases hlimit : q.options.limit = 0
  · have hrun : (Selection.runUnordered s.segment q.select q.options).value =
        .ok ⟨schema, .selection [], ExecutionStats.forSegment s.segment.totalDocs, []⟩ := by
      rw [Selection.runUnordered, hfetched, hschema]
      simp only [if_pos hlimit]
      rfl
    exact ⟨_, hrun, hschema, by rw [if_pos hlimit]⟩
  · obtain ⟨stats, hrun⟩ := Selection.runUnordered_eq (Nat.pos_of_ne_zero hlimit)
      (hfetched ▸ hschema)
    refine ⟨_, hrun, hschema, ?_⟩
    rw [if_neg hlimit, hfetched, Query.matchingRows_singleton]

/-- A segment without a fetched column fails. -/
theorem error_of_segment (hkind : q.kind = .selection) (hplain : q.orderBy = [])
    (hfetch : ¬s.Fetchable (q.fetched s)) : ∃ e, (q.runOver s.segment).value = .error e := by
  cases hschema : Selection.schema s.segment (q.fetched s) with
  | ok schema => exact absurd (Selection.fetchable_iff.2 ⟨schema, hschema⟩) hfetch
  | error e =>
    refine ⟨e, ?_⟩
    rw [Query.fetched, hplain] at hschema
    rw [Query.runOver_selection hkind hplain, Selection.runUnordered, hschema]
    rfl

/-! ## Servers -/

/-- **A server keeps the first of its segments' matching rows.** -/
theorem rows_of_server (hkind : q.kind = .selection) (hplain : q.orderBy = [])
    (hfetch : ∀ t ∈ s :: segments, t.Fetchable (q.fetched t)) :
    Selection.schema s.segment (q.fetched s) =
        .ok (q.run ((s :: segments).map MemorySegment.segment)).value.schema ∧
      (q.run ((s :: segments).map MemorySegment.segment)).value.rows =
        .selection (q.keptRows (s :: segments)) := by
  obtain ⟨hfirst, hrest⟩ := List.forall_mem_cons.1 hfetch
  obtain ⟨first, hrun, hschema, hrows⟩ := rows_of_segment hkind hplain hfirst
  obtain ⟨rest, hresults⟩ := exists_forall₂ fun t ht => rows_of_segment hkind hplain (hrest t ht)
  have hpayloads : List.Forall₂ (fun (r : PartialResult) rows => r.rows = .selection rows) rest
      (segments.map fun t => q.keptRows [t]) := by
    rw [List.forall₂_map_right_iff]
    exact hresults.flip.imp fun _ _ h => h.2.2
  obtain ⟨r, hfold, hsame, hmerged⟩ := @Combiner.exists_foldlM_mergeResult q.combiner _
    ResultRows.selection (fun a b => .ok (Combiner.appendRows q.options.rowsToKeep a b))
    (fun _ => ResultRows.noConfusion) (fun _ _ => rfl) rest _ hpayloads first _ _ hrows
    (Except.foldlM_ok fun _ _ _ => rfl)
  have houtcomes : List.Forall₂ (fun s r => (q.runOver (MemorySegment.segment s)).value = .ok r)
      (s :: segments) (first :: rest) := .cons hrun (hresults.imp fun _ _ h => h.1)
  rw [Query.value_run_of_outcomes houtcomes hfold, hsame, hmerged, foldl_keptRows]
  exact ⟨hschema, rfl⟩

/-- **A server whose segments all fail has no rows**, and no columns. -/
theorem rows_of_failed_server (hkind : q.kind = .selection) (hplain : q.orderBy = [])
    (hfetch : ∀ t ∈ segments, ¬t.Fetchable (q.fetched t)) :
    (q.run (segments.map MemorySegment.segment)).value.schema = .empty ∧
      (q.run (segments.map MemorySegment.segment)).value.rows = .empty := by
  obtain ⟨errors, herrors⟩ := exists_forall₂ fun t ht =>
    error_of_segment hkind hplain (hfetch t ht)
  have hrun : (q.run (segments.map MemorySegment.segment)).value =
      (q.combiner.combine (errors.map .error)).value := by
    rw [Query.value_run, List.map_map]
    exact congrArg (fun outcomes => (q.combiner.combine outcomes).value)
      (forall₂_iff_map_eq.1 herrors)
  rw [hrun]
  exact Combiner.combine_errors errors

/-! ## Tables -/

/-- Whether segments have the columns that a query fetches. -/
def Answers (q : Query) (segments : List MemorySegment) : Prop :=
  ∀ s ∈ segments, s.Fetchable (q.fetched s)

/-- What the table of a server with segments holds. -/
structure KeptTable (q : Query) (segments : List MemorySegment) (t : DataTable) : Prop where
  rows : t.allRows = q.keptRows segments
  schema : ∀ s ∈ segments.head?, Selection.schema s.segment (q.fetched s) = .ok t.schema

/-- **What a server hands on** is a table of the rows that it keeps. -/
theorem keptTable_of_server (hkind : q.kind = .selection) (hplain : q.orderBy = [])
    (hfetch : Answers q segments) {t : DataTable}
    (ht : DataTable.ofPartial (q.run (segments.map MemorySegment.segment)).value = .ok t) :
    KeptTable q segments t := by
  obtain ⟨hrows, hschema⟩ := DataTable.allRows_ofPartial ht
  cases segments with
  | nil =>
    have hnone : q.keptRows [] = [] := by simp [Query.keptRows, Query.matchingRows]
    exact ⟨hrows.trans hnone.symm, by simp⟩
  | cons s segments =>
    obtain ⟨hfirst, hkept⟩ := rows_of_server hkind hplain hfetch
    rw [hkept] at hrows
    refine ⟨hrows, fun s' hs' => ?_⟩
    obtain rfl := Option.mem_some.1 hs'
    rw [hschema, hfirst]

/-- Rows that are kept are as wide as what is fetched. -/
theorem length_of_mem_keptRows (hcolumns : ∀ t ∈ segments, s.SameColumns t) {row : Row}
    (hrow : row ∈ q.keptRows segments) : row.length = (q.fetched s).length := by
  unfold Query.keptRows at hrow
  split at hrow
  · exact absurd hrow List.not_mem_nil
  · obtain ⟨t, ht, hrow⟩ := List.mem_flatMap.1 (List.mem_of_mem_take hrow)
    obtain ⟨d, -, rfl⟩ := List.mem_map.1 hrow
    rw [MemorySegment.length_row, (hcolumns t ht).fetched_eq q]

/-- **A server's result makes a table** when no more rows are kept than a
table can number. -/
theorem exists_keptTable_iff (hkind : q.kind = .selection) (hplain : q.orderBy = [])
    (hcolumns : segments.Pairwise MemorySegment.SameColumns) (hfetch : Answers q segments) :
    (∃ t, DataTable.ofPartial (q.run (segments.map MemorySegment.segment)).value = .ok t) ↔
      (q.keptRows segments).length ≤ Number.bound32 := by
  rw [DataTable.exists_ofPartial_iff]
  cases segments with
  | nil =>
    have hnone : q.keptRows [] = [] := by simp [Query.keptRows, Query.matchingRows]
    rw [List.map_nil, Query.value_run_nil, hnone]
    simp [PartialResult.empty, ResultRows.rows]
  | cons t segments =>
    obtain ⟨hschema, hrows⟩ := rows_of_server hkind hplain hfetch
    have hlike : ∀ u ∈ t :: segments, t.SameColumns u := fun u hu =>
      .of_pairwise hcolumns List.mem_cons_self hu
    rw [hrows, Selection.width_schema hschema]
    exact and_iff_right fun row hrow => length_of_mem_keptRows hlike hrow

/-- A server whose segments all fail hands on a table without rows. -/
theorem exists_failedTable (hkind : q.kind = .selection) (hplain : q.orderBy = [])
    (hfetch : ∀ t ∈ segments, ¬t.Fetchable (q.fetched t)) :
    (∃ t, DataTable.ofPartial (q.run (segments.map MemorySegment.segment)).value = .ok t) ∧
      ∀ t, DataTable.ofPartial (q.run (segments.map MemorySegment.segment)).value = .ok t →
        t.allRows = [] := by
  obtain ⟨-, hrows⟩ := rows_of_failed_server hkind hplain hfetch
  refine ⟨DataTable.exists_ofPartial_iff.2 ?_, fun t ht => ?_⟩
  · rw [hrows]
    exact ⟨fun row hrow => absurd hrow List.not_mem_nil, Nat.zero_le _⟩
  · rw [(DataTable.allRows_ofPartial ht).1, hrows]
    rfl

/-- A table of what segments keep has columns if something is fetched. -/
theorem KeptTable.isEmpty_schema {t : DataTable} (h : KeptTable q (s :: segments) t)
    (hfetched : q.fetched s ≠ []) : t.schema.isEmpty = false := by
  have hpos := List.length_pos_iff.2 hfetched
  rw [← Selection.width_schema (h.schema s rfl)] at hpos
  exact List.isEmpty_eq_false_iff.2 (List.ne_nil_of_length_pos hpos)

/-! ## The broker -/

section

variable {servers : List (List MemorySegment)} {tables : List DataTable}

/-- **The broker cuts what servers keep to the window.** -/
theorem selectedRows_of_keptTables (h : List.Forall₂ (KeptTable q) servers tables) :
    selectedRows q tables = q.scanWindow servers.flatten := by
  rw [selectedRows, allRows_eq_flatMap (h.flip.imp fun _ _ ht => ht.rows), drop_take_keptRows]

/-- Servers with the columns that are fetched hand on what they keep. -/
theorem keptTables_of_servers (hkind : q.kind = .selection) (hplain : q.orderBy = [])
    (hfetch : Answers q servers.flatten)
    (htables : List.Forall₂ (fun server t =>
      DataTable.ofPartial (q.run (server.map MemorySegment.segment)).value = .ok t)
      servers tables) : List.Forall₂ (KeptTable q) servers tables := by
  have hservers : ∀ server ∈ servers, Answers q server := fun server hserver s hs =>
    hfetch s (List.mem_flatten.2 ⟨server, hserver, hs⟩)
  refine ((List.forall₂_and_left _ _).2 ⟨hservers, htables⟩).imp fun server t h => ?_
  exact keptTable_of_server hkind hplain h.1 h.2

/-- **What the broker shows of a selection without an order** is what it
selects, under the schema of the first table with columns. -/
theorem resultTable_of_keptTables (hkind : q.kind = .selection) (hplain : q.orderBy = [])
    (hcolumns : servers.flatten.Pairwise MemorySegment.SameColumns)
    (hfetch : Answers q servers.flatten) (hs : s ∈ servers.flatten) (hfetched : q.fetched s ≠ [])
    (htables : List.Forall₂ (fun server t =>
      DataTable.ofPartial (q.run (server.map MemorySegment.segment)).value = .ok t)
      servers tables) :
    let columned := tables.filter fun t => !t.schema.isEmpty
    let schema := (columned.head?.map DataTable.schema).getD .empty
    resultTable q tables =
      ResultTable.render schema (q.scanWindow servers.flatten)
        (Selection.outputColumns q.select schema.names) := by
  obtain ⟨busy, hbusy, hbusyTables⟩ : ∃ busy, busy.flatten = servers.flatten ∧
      List.Forall₂ (KeptTable q) busy (tables.filter fun t => !t.schema.isEmpty) := by
    refine exists_busy htables fun server hserver t ht => ?_
    have hmem : ∀ u ∈ server, u ∈ servers.flatten := fun u hu =>
      List.mem_flatten.2 ⟨server, hserver, hu⟩
    have hkept := keptTable_of_server hkind hplain (fun u hu => hfetch u (hmem u hu)) ht
    cases server with
    | nil =>
      rw [List.map_nil, Query.value_run_nil] at ht
      exact .inl ⟨rfl, by rw [(DataTable.allRows_ofPartial ht).2]; rfl⟩
    | cons u server =>
      have hlike := MemorySegment.SameColumns.of_pairwise hcolumns hs (hmem u List.mem_cons_self)
      exact .inr ⟨hkept.isEmpty_schema (hlike.fetched_eq q ▸ hfetched), hkept⟩
  have hempty : q.orderBy.isEmpty = true := by rw [hplain]; rfl
  intro columned schema
  show reduceTables q columned = _
  cases hcolumned : columned with
  | nil =>
    -- some server has the segment, and so a table with columns
    rw [show tables.filter (fun t => !t.schema.isEmpty) = [] from hcolumned,
      List.forall₂_nil_right_iff] at hbusyTables
    rw [← hbusy, hbusyTables] at hs
    exact absurd hs List.not_mem_nil
  | cons first rest =>
    have hschema : schema = first.schema := by
      show (columned.head?.map DataTable.schema).getD .empty = _
      rw [hcolumned]
      rfl
    rw [hschema, reduceTables, ← hbusy, ← selectedRows_of_keptTables hbusyTables,
      show tables.filter (fun t => !t.schema.isEmpty) = first :: rest from hcolumned]
    simp only [hkind, reduceSelection, hempty, if_true]
    rfl

end

end

/-- **A selection without an order is a window on all matching rows in
scan order.** However the segments of a table are spread over servers:
if they have the columns that the query fetches, the broker selects the
rows from `offset` to `offset + limit` of all that match, in server,
segment and document order, and shows them under the schema of the first
table with columns. If they lack one, or if the limit is zero, no row is
selected. Every server's result makes a table unless it keeps more rows
than a table can number; `offset + limit` stops at the greatest count. -/
theorem selectedRows_of_servers (q : Query) (hkind : q.kind = .selection) (hplain : q.orderBy = [])
    (servers : List (List MemorySegment))
    (hcolumns : servers.flatten.Pairwise MemorySegment.SameColumns) :
    ((∃ tables, List.Forall₂ (fun server t =>
        DataTable.ofPartial (q.run (server.map MemorySegment.segment)).value = .ok t)
        servers tables) ↔
      (Answers q servers.flatten → 0 < q.options.limit → ∀ server ∈ servers,
        min q.options.rowsToKeep (q.matchingRows server).length ≤ Number.bound32)) ∧
    ∀ tables, List.Forall₂ (fun server t =>
        DataTable.ofPartial (q.run (server.map MemorySegment.segment)).value = .ok t)
        servers tables →
      (Answers q servers.flatten → selectedRows q tables =
        ((q.matchingRows servers.flatten).take q.options.rowsToKeep).drop q.options.offset) ∧
      (¬Answers q servers.flatten → selectedRows q tables = []) ∧
      (q.options.limit = 0 → selectedRows q tables = []) ∧
      (Answers q servers.flatten → (∃ s ∈ servers.flatten, q.fetched s ≠ []) →
        let columned := tables.filter fun t => !t.schema.isEmpty
        let schema := (columned.head?.map DataTable.schema).getD .empty
        resultTable q tables =
          ResultTable.render schema (selectedRows q tables)
            (Selection.outputColumns q.select schema.names)) := by
  have hmem {server : List MemorySegment} (hserver : server ∈ servers) :
      server ⊆ servers.flatten := fun s hs => List.mem_flatten.2 ⟨server, hserver, hs⟩
  -- where one segment lacks a column, all do
  have hfailed (hfetch : ¬Answers q servers.flatten) {server : List MemorySegment}
      (hserver : server ∈ servers) : ∀ s ∈ server, ¬s.Fetchable (q.fetched s) := by
    intro s hs hfetchs
    refine hfetch fun t ht => ?_
    have hlike := MemorySegment.SameColumns.of_pairwise hcolumns (hmem hserver hs) ht
    rw [← hlike.fetched_eq q]
    exact hlike.fetchable hfetchs
  have htable (hfetch : Answers q servers.flatten) {server : List MemorySegment}
      (hserver : server ∈ servers) := exists_keptTable_iff hkind hplain
    (hcolumns.sublist (List.sublist_flatten_of_mem hserver)) fun s hs => hfetch s (hmem hserver hs)
  refine ⟨⟨?_, fun hsizes => exists_forall₂ fun server hserver => ?_⟩, fun tables htables => ?_⟩
  · rintro ⟨tables, htables⟩ hfetch hlimit server hserver
    obtain ⟨t, -, ht⟩ := exists_of_mem_right htables.flip hserver
    rw [← Query.length_keptRows hlimit]
    exact (htable hfetch hserver).1 ⟨t, ht⟩
  · by_cases hfetch : Answers q servers.flatten
    · refine (htable hfetch hserver).2 ?_
      rcases Nat.eq_zero_or_pos q.options.limit with hlimit | hlimit
      · rw [Query.keptRows, if_pos hlimit]
        exact Nat.zero_le _
      · rw [Query.length_keptRows hlimit]
        exact hsizes hfetch hlimit server hserver
    · exact (exists_failedTable hkind hplain (hfailed hfetch hserver)).1
  have hwindow (hfetch : Answers q servers.flatten) :
      selectedRows q tables = q.scanWindow servers.flatten :=
    selectedRows_of_keptTables (keptTables_of_servers hkind hplain hfetch htables)
  have hnone (hfetch : ¬Answers q servers.flatten) : selectedRows q tables = [] := by
    have hrows : allRows tables = [] := List.flatMap_eq_nil_iff.2 fun t ht => by
      obtain ⟨server, hserver, hrun⟩ := exists_of_mem_right htables ht
      exact (exists_failedTable hkind hplain (hfailed hfetch hserver)).2 t hrun
    rw [selectedRows, hrows, List.take_nil, List.drop_nil]
  refine ⟨hwindow, hnone, fun hlimit => ?_, fun hfetch => ?_⟩
  · by_cases hfetch : Answers q servers.flatten
    · rw [hwindow hfetch, Query.scanWindow_of_limit_eq_zero hlimit]
    · exact hnone hfetch
  · rintro ⟨s, hs, hfetched⟩
    rw [hwindow hfetch]
    exact resultTable_of_keptTables hkind hplain hcolumns hfetch hs hfetched htables

/-- Two rows after the first. -/
def secondAndThird : Query where
  kind := .selection
  select := ["k"]
  options := { offset := 1, limit := 2 }

/-- Of the integers 3, 1, 2 and 3 on three servers the second and the
third are 1 and 2. -/
theorem selectedRows_of_servers_three :
    let servers := [[integers [3, 1] (by decide), integers [2] (by decide)], [],
      [integers [3] (by decide)]]
    ∃ tables, List.Forall₂ (fun server t =>
        DataTable.ofPartial (secondAndThird.run (server.map MemorySegment.segment)).value = .ok t)
        servers tables ∧
      selectedRows secondAndThird tables = [[.int 1], [.int 2]] := by
  intro servers
  have hcolumns : servers.flatten.Pairwise MemorySegment.SameColumns := by
    simp [servers, sameColumns_integers]
  have hfetch : Answers secondAndThird servers.flatten := by
    intro s hs
    obtain ⟨values, h, rfl⟩ : ∃ values h, s = integers values h := by
      rcases List.mem_cons.1 hs with rfl | hs
      · exact ⟨_, _, rfl⟩
      rcases List.mem_cons.1 hs with rfl | hs
      · exact ⟨_, _, rfl⟩
      exact ⟨_, _, List.mem_singleton.1 hs⟩
    intro e he
    obtain rfl := List.mem_singleton.1 he
    exact ⟨_, rfl, trivial⟩
  obtain ⟨htables, hrows⟩ := selectedRows_of_servers secondAndThird rfl rfl servers hcolumns
  obtain ⟨tables, ht⟩ := htables.2 fun _ _ => by decide +kernel
  refine ⟨tables, ht, ((hrows tables ht).1 hfetch).trans ?_⟩
  decide +kernel

end Broker

end SegmentQuery
