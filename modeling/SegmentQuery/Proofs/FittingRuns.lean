import SegmentQuery.Proofs.Operator.GroupedTuples
import SegmentQuery.Proofs.Result.Fits
import SegmentQuery.Proofs.Result.Tables
import SegmentQuery.Proofs.Runs
import SegmentQuery.Proofs.Selection.Strategies
import SegmentQuery.Proofs.Selection.Unordered
/-!
# Rows of a run fit their schema

What one segment answers fits the schema of the answer, for every kind of
query. A run takes the schema of the first answer and never compares it
with the others', so its rows fit where the answers agree on the column
types, and only there is the table of the run sure to exist.
-/


namespace SegmentQuery

open AggregateFunction

variable {q : Query} {s : MemorySegment}

/-! ## Cells of a segment -/

namespace Column

variable {c : Column} {name : String} {role : FieldKind} {type : ColumnType}

/-- **A column's type admits what is read of it.** -/
theorem admits_cellOf
    (h : (ColumnMetadata.mk name c.type c.isSingleValue role).columnType = .ok type)
    (nullHandling : Bool) (document : Nat) : type.Admits (c.cellOf nullHandling document) := by
  obtain ⟨values, nulls⟩ := c
  cases values with
  | single t vs =>
    obtain rfl : ColumnType.ofStored t = type := Except.ok.inj h
    unfold cellOf
    dsimp only
    split
    · exact ColumnType.admits_null _
    · cases vs[document]? with
      | none => exact ColumnType.admits_null _
      | some v => exact ColumnType.admits_of_kind (by cases t <;> rfl)
  | multi t vs =>
    unfold cellOf
    dsimp only
    cases hread : vs[document]? with
    | none =>
      cases t.arrayCell? <;> exact ColumnType.admits_null _
    | some v =>
      cases t <;> first
        | exact ColumnType.admits_null _
        | (obtain rfl := Except.ok.inj h
           exact ColumnType.admits_of_kind rfl)

/-- The only key of a null is null. -/
theorem admits_of_mem_null {type : ColumnType} {key : Key} (h : key ∈ GroupBy.elementKeys .null) :
    type.Admits key.cell := by
  obtain rfl := List.mem_singleton.1 h
  exact ColumnType.admits_null type

/-- A column's elements are of its stored type. -/
theorem admits_elementKeys {nullHandling : Bool} {document : Nat} {key : Key}
    (h : key ∈ GroupBy.elementKeys (c.cellOf nullHandling document)) :
    (ColumnType.ofStored c.type).Admits key.cell := by
  obtain ⟨values, nulls⟩ := c
  cases values with
  | single t vs =>
    unfold cellOf at h
    dsimp only at h
    split at h
    · exact admits_of_mem_null h
    · cases hread : vs[document]? with
      | none =>
        rw [hread] at h
        exact admits_of_mem_null h
      | some v =>
        rw [hread] at h
        cases t <;>
          (obtain rfl := List.mem_singleton.1 h
           exact ColumnType.admits_of_kind rfl)
  | multi t vs =>
    unfold cellOf at h
    dsimp only at h
    cases hread : vs[document]? with
    | none =>
      rw [hread] at h
      cases hcell : t.arrayCell? <;> (rw [hcell] at h; exact admits_of_mem_null h)
    | some v =>
      rw [hread] at h
      cases t with
      | bigDecimal | bytes => exact admits_of_mem_null h
      | _ =>
        obtain ⟨x, -, rfl⟩ := List.mem_map.1 h
        exact ColumnType.admits_of_kind rfl

end Column

namespace MemorySegment

/-- **Rows of documents fit the schema of the expressions.** -/
theorem fits_row {expressions : List String} {schema : Schema}
    (h : Selection.schema s.segment expressions = .ok schema) (nullHandling : Bool)
    (document : Nat) : Row.Fits schema.types (s.row nullHandling expressions document) := by
  refine List.forall₂_map_left_iff.2 (List.forall₂_map_right_iff.2 ?_)
  refine (Selection.columns_of_schema h).flip.imp fun column e hcolumn => ?_
  obtain ⟨-, c, hfind, htype⟩ := hcolumn
  rw [cell, hfind]
  exact Column.admits_cellOf htype nullHandling document

end MemorySegment

/-! ## Answers of one segment -/

namespace Selection

theorem fit_runUnordered {options : Options} {r : PartialResult}
    (h : (runUnordered s.segment q.select options).value = .ok r) :
    r.rows.Fit q r.schema.types := by
  cases hschema : schema s.segment
      (fetchedExpressions q.select [] options.limit s.segment.columnNames) with
  | error e =>
    unfold runUnordered at h
    simp only [hschema] at h
    exact nomatch h
  | ok output =>
    rcases Nat.eq_zero_or_pos options.limit with hzero | hlimit
    · unfold runUnordered at h
      simp only [hschema, if_pos hzero] at h
      obtain rfl := Except.ok.inj h
      exact fun row hrow => absurd hrow List.not_mem_nil
    · obtain ⟨stats, hrun⟩ := runUnordered_eq hlimit hschema
      obtain rfl := Except.ok.inj (hrun.symm.trans h)
      intro row hrow
      obtain ⟨d, -, rfl⟩ := List.mem_map.1 (List.mem_of_mem_take hrow)
      exact MemorySegment.fits_row hschema _ d

/-- Rows that a plan collects fit its schema. -/
theorem Plan.fit_foldl_put {p : Plan} {order : RowOrder} {output : Schema}
    (hschema : schema s.segment p.expressions = .ok output) (documents : List Nat) :
    (ResultRows.orderedSelection ((rowsOf s p documents).foldl OrderedRows.put
      (.empty order p.keep))).Fit q output.types := by
  have hbest := @OrderedRows.best_foldl_put order _ rfl p.keep (rowsOf s p documents)
  obtain ⟨dropped, hkept⟩ := hbest.best
  refine ⟨hbest.compare_eq ▸ hbest.valid, fun row hrow => ?_⟩
  obtain ⟨d, -, rfl⟩ := List.mem_map.1 (hkept.perm.mem_iff.2 (List.mem_append_left dropped hrow))
  exact MemorySegment.fits_row hschema _ d

theorem Plan.fit_run {options : Options} {r : PartialResult} (hlimit : 0 < options.limit)
    (h : (make s.segment q.select q.orderBy options).run.value = .ok r) :
    r.rows.Fit q r.schema.types := by
  cases hschema : schema s.segment (make s.segment q.select q.orderBy options).expressions with
  | error e => exact nomatch (run_of_schema_error hschema).symm.trans h
  | ok output =>
    obtain ⟨order, stats, -, hrun⟩ := run_eq (s := s) rfl orderWidth_make_le
      (rowsToKeep_pos hlimit) hschema
    obtain rfl := Except.ok.inj (hrun.symm.trans h)
    exact fit_foldl_put hschema _

end Selection

namespace Aggregation

theorem types_intermediateColumns (functions : List AggregateFunction) :
    (Schema.mk (intermediateColumns functions)).types = intermediateTypes functions :=
  List.map_map ..

/-- A scan keeps a holder for each function. -/
theorem fit_run {segment : Segment} {options : Options} {r : PartialResult}
    (h : (run segment q.functions options).value = .ok r) : r.rows.Fit q r.schema.types := by
  obtain ⟨scanned, hscan, rfl⟩ := Except.map_eq_ok.1 h
  have hlen : scanned.state.length = q.functions.length := by
    refine scanWith_preserves (P := fun holders : List Holder =>
      holders.length = q.functions.length) .aggregation ?_ (List.length_map _) hscan
    intro holders block visit hholders hvisit
    obtain ⟨folded, hfold, hvisit⟩ := Except.bind_eq_ok.1 hvisit
    obtain rfl := Except.ok.inj hvisit
    rw [← (Except.mapM_eq_ok.1 hfold).length_eq, List.length_zip, hholders, Nat.min_self]
  refine ⟨types_intermediateColumns q.functions, ?_⟩
  show Row.Fits (Schema.mk _).types ((q.functions.zip scanned.state).map _)
  rw [types_intermediateColumns]
  refine List.forall₂_iff_get.2 ⟨by simp [hlen], fun i hi hi' => ?_⟩
  simpa using admits_extract _ _

end Aggregation

namespace GroupBy

variable {groupBy : List String} {functions : List AggregateFunction} {output : Schema}
variable {multiValue : Bool}

/-- The type of a group-by column's keys. -/
theorem type_of_keyColumn {alone : Bool} {name : String} {key : ResultColumn × Bool}
    (h : keyColumn s.segment alone name = .ok key) :
    ∃ c, s.find name = .ok c ∧ key.1.type = .ofStored c.column.type ∧
      (alone = false → c.column.isSingleValue = true) := by
  obtain ⟨metadata, hmetadata, h⟩ := Except.bind_eq_ok.1 h
  obtain ⟨c, hfind, rfl⟩ := Except.map_eq_ok.1 hmetadata
  refine ⟨c, hfind, ?_⟩
  dsimp only at h
  split at h
  · exact nomatch h
  · rename_i hallowed
    obtain rfl := Except.ok.inj h
    exact ⟨rfl, fun halone => by simpa [halone] using hallowed⟩

/-- The types of a grouping's columns: those of the keys, then those of
the aggregates. -/
theorem types_schema (h : schema s.segment groupBy functions = .ok (output, multiValue)) :
    ∃ keyTypes, output.types = keyTypes ++ intermediateTypes functions ∧
      List.Forall₂ (fun name type => ∃ c, s.find name = .ok c ∧ type = .ofStored c.column.type ∧
        (groupBy.length ≠ 1 → c.column.isSingleValue = true)) groupBy keyTypes := by
  obtain ⟨keys, hkeys, hpair⟩ := Except.bind_eq_ok.1 h
  obtain ⟨rfl, -⟩ := Prod.mk.inj (Except.ok.inj hpair)
  refine ⟨keys.map fun key => key.1.type, ?_, List.forall₂_map_right_iff.2 ?_⟩
  · show List.map _ (_ ++ _) = _
    rw [List.map_append, List.map_map]
    exact congrArg _ (Aggregation.types_intermediateColumns functions)
  · have hcolumns := Except.mapM_eq_ok.1 hkeys
    cases groupBy with
    | nil =>
      obtain rfl := List.forall₂_nil_left_iff.1 hcolumns
      exact .nil
    | cons first rest =>
      refine hcolumns.imp fun name key hkey => ?_
      obtain ⟨c, hfind, htype, hsingle⟩ := type_of_keyColumn hkey
      refine ⟨c, hfind, htype, fun hmore => hsingle (decide_eq_false ?_)⟩
      rw [List.length_cons] at hmore ⊢
      omega

/-- **A document's tuples fit the key columns.** -/
theorem fits_documentTuples {keyTypes : List ColumnType}
    (h : List.Forall₂ (fun name type => ∃ c, s.find name = .ok c ∧ type = .ofStored c.column.type ∧
      (groupBy.length ≠ 1 → c.column.isSingleValue = true)) groupBy keyTypes)
    {nullHandling : Bool} {document : Nat} {tuple : List Key}
    (htuple : tuple ∈ documentTuples (s.row nullHandling groupBy document)) :
    Row.Fits keyTypes (tuple.map Key.cell) := by
  by_cases hone : groupBy.length = 1
  · -- one key out of the cell's elements
    rw [documentTuples_of_length (by simpa using hone)] at htuple
    obtain ⟨key, hkey, rfl⟩ := List.mem_map.1 htuple
    obtain ⟨name, rfl⟩ := List.length_eq_one_iff.1 hone
    obtain ⟨type, _, ⟨c, hfind, rfl, -⟩, hnil, rfl⟩ := List.forall₂_cons_left_iff.1 h
    obtain rfl := List.forall₂_nil_left_iff.1 hnil
    refine .cons ?_ .nil
    have hcell : s.cell nullHandling document name = c.column.cellOf nullHandling document := by
      rw [MemorySegment.cell, hfind]
    simp only [MemorySegment.row, List.map_cons, List.map_nil, List.flatMap_singleton, hcell] at hkey
    exact Column.admits_elementKeys hkey
  · -- the keys of the cells, none of which is an array
    have hsingle : ∀ c ∈ s.row nullHandling groupBy document, c.isMultiValue = false := by
      intro cell hcell
      obtain ⟨name, hname, rfl⟩ := List.mem_map.1 hcell
      obtain ⟨type, -, c, hfind, -, hsingle⟩ := exists_of_mem_right h.flip hname
      refine MemorySegment.isMultiValue_cell ?_ _ _
      rw [MemorySegment.isSingle, hfind]
      exact hsingle hone
    rw [documentTuples_of_single hsingle] at htuple
    obtain rfl := List.mem_singleton.1 htuple
    rw [List.map_map, MemorySegment.row, List.map_map]
    refine List.forall₂_map_right_iff.2 (h.flip.imp fun type name hname => ?_)
    obtain ⟨c, hfind, rfl, hvalue⟩ := hname
    show (ColumnType.ofStored c.column.type).Admits (s.cell nullHandling document name).key.cell
    rw [MemorySegment.cell, hfind]
    have htype : (ColumnMetadata.mk name c.column.type c.column.isSingleValue
        .dimension).columnType = .ok (.ofStored c.column.type) := by
      rw [hvalue hone]
      rfl
    exact ColumnType.admits_key (Column.admits_cellOf htype _ _)

/-- **The groups of a segment fit the schema.** -/
theorem fit_run {options : Options} {r : PartialResult}
    (h : (run s.segment q.groupBy q.functions options).value = .ok r) :
    r.rows.Fit q r.schema.types := by
  obtain ⟨multiValue, state, t, hschema, hstate, htable, hrows, -, -⟩ := of_run h
  obtain ⟨keyTypes, htypes, hcolumns⟩ := types_schema hschema
  have hkeys : state.keys = _ := hstate.keys_eq.trans (GroupKeys.snd_assignAll_new _ _)
  have hdiffer : Key.Different state.keys.tuples := by
    rw [hkeys]
    exact (Key.different_differentTuples _).sublist (List.take_sublist _ _)
  obtain ⟨rows, haggregates, hperm⟩ := perm_table hdiffer htable
  rw [hrows]
  refine ⟨keyTypes, htypes, fun g hg => ?_⟩
  have hzip := hperm.mem_iff.1 hg
  constructor
  · -- the tuple is one of a document
    have htuple : g.1 ∈ state.keys.tuples := (List.of_mem_zip hzip).1
    rw [hkeys] at htuple
    obtain ⟨d, -, htuple⟩ := List.mem_flatMap.1
      (Key.mem_of_mem_differentTuples (List.mem_of_mem_take htuple))
    exact fits_documentTuples hcolumns htuple
  · -- the aggregates are those of a number
    obtain ⟨pair, -, hrow⟩ := exists_of_mem_right haggregates (List.of_mem_zip hzip).2
    have hforall := Except.mapM_eq_ok.1 hrow
    refine List.forall₂_iff_get.2 ⟨?_, fun i hi hi' => ?_⟩
    · rw [← hforall.length_eq, List.length_zip, hstate.length_holders, Nat.min_self, List.length_map]
    · obtain ⟨slot, -, hslot⟩ := Except.map_eq_ok.1 (hforall.get (hforall.length_eq ▸ hi') hi')
      rw [← hslot]
      simpa using admits_extractSlot _ _

end GroupBy

/-! ## Runs -/

namespace Query

/-- **What one segment answers fits the schema of the answer.** -/
theorem fit_runOver {r : PartialResult} (h : (q.runOver s.segment).value = .ok r) :
    r.rows.Fit q r.schema.types := by
  cases hkind : q.kind with
  | selection =>
    by_cases hplain : (q.orderBy.isEmpty || q.options.limit == 0) = true
    · rw [runOver, hkind] at h
      simp only [if_pos hplain] at h
      exact Selection.fit_runUnordered h
    · rw [runOver, hkind] at h
      simp only [if_neg hplain] at h
      refine Selection.Plan.fit_run (Nat.pos_iff_ne_zero.2 fun hzero => hplain ?_) h
      rw [hzero, beq_self_eq_true, Bool.or_true]
  | aggregation =>
    rw [runOver, hkind] at h
    exact Aggregation.fit_run h
  | groupBy =>
    rw [runOver, hkind] at h
    exact GroupBy.fit_run h
  | distinct =>
    obtain ⟨column, order, -, hrun⟩ := of_runOver_distinct hkind h
    obtain ⟨type, role, d, hschema, hrows, hcollects⟩ := Distinct.collects_run hrun
    rw [hschema, hrows]
    exact ⟨type, order, rfl, hcollects⟩

/-- Segments that answer a query in columns of the same types, where they
answer at all. Aggregations always do. -/
def AgreeOnTypes (q : Query) (segments : List MemorySegment) : Prop :=
  ∀ s ∈ segments, ∀ t ∈ segments, ∀ r r', (q.runOver s.segment).value = .ok r →
    (q.runOver t.segment).value = .ok r' → r.schema.types = r'.schema.types

theorem agreeOnTypes_of_aggregation (hkind : q.kind = .aggregation)
    (segments : List MemorySegment) : q.AgreeOnTypes segments := by
  have htypes (s : MemorySegment) (r : PartialResult) (h : (q.runOver s.segment).value = .ok r) :
      r.schema.types = intermediateTypes q.functions := by
    rw [runOver, hkind] at h
    obtain ⟨scanned, -, rfl⟩ := Except.map_eq_ok.1 h
    exact Aggregation.types_intermediateColumns q.functions
  intro s _ t _ r r' hr hr'
  rw [htypes s r hr, htypes t r' hr']

/-- **Combined rows fit their schema where the segments agree.** A run
takes the schema of the first segment that answers, and appends or merges
the rows of the others as they are. Where all answers have columns of the
same types, every combined row has a cell for each column that the column
may hold, whatever merges fail, and the result makes a table unless it has
more rows than a table can number. -/
theorem fits_run (q : Query) (segments : List MemorySegment)
    (hagree : q.kind ≠ .aggregation → q.AgreeOnTypes segments) :
    let combined := (q.run (segments.map MemorySegment.segment)).value
    (∀ row ∈ combined.rows.rows, Row.Fits combined.schema.types row) ∧
      ((∃ t, DataTable.ofPartial combined = .ok t) ↔
        combined.rows.rows.length ≤ Number.bound32) := by
  intro combined
  have hagree : q.AgreeOnTypes segments := by
    by_cases hkind : q.kind = .aggregation
    · exact agreeOnTypes_of_aggregation hkind segments
    · exact hagree hkind
  have hanswer : ∀ r, .ok r ∈ (segments.map MemorySegment.segment).map
      (fun s => (q.runOver s).value) → ∃ s ∈ segments, (q.runOver s.segment).value = .ok r := by
    intro r hr
    rw [List.map_map] at hr
    exact List.mem_map.1 hr
  have hfit : combined.rows.Fit q combined.schema.types := by
    show ((q.run _).value).rows.Fit q ((q.run _).value).schema.types
    rw [value_run]
    by_cases hsome : ∃ s ∈ segments, ∃ r, (q.runOver s.segment).value = .ok r
    · obtain ⟨s, hs, first, hfirst⟩ := hsome
      refine @Combiner.fit_combine q first.schema.types _ fun r hr => ?_
      obtain ⟨t, ht, hrun⟩ := hanswer r hr
      have htypes := hagree t ht s hs r first hrun hfirst
      exact ⟨htypes, htypes ▸ fit_runOver hrun⟩
    · refine @Combiner.fit_combine q [] _ fun r hr => ?_
      obtain ⟨s, hs, hrun⟩ := hanswer r hr
      exact absurd ⟨s, hs, r, hrun⟩ hsome
  refine ⟨hfit.fits, ?_⟩
  rw [DataTable.exists_ofPartial_iff]
  refine and_iff_right fun row hrow => ?_
  rw [Schema.width_eq_length_types]
  exact (hfit.fits row hrow).length_eq.symm

/-- One document with one integer. -/
def narrow : MemorySegment where
  name := "narrow"
  numDocs := 1
  columns := [⟨"k", .dimension, ⟨.single .int [1], none⟩⟩]
  blockSize := 1
  sortedColumns := []
  filter := none
  numDocs_le := by decide
  length_columns := by decide
  names_nodup := by decide
  blockSize_pos := Nat.one_pos

/-- One document with another integer next to it. -/
def wide : MemorySegment where
  name := "wide"
  numDocs := 1
  columns :=
    [⟨"k", .dimension, ⟨.single .int [2], none⟩⟩, ⟨"m", .dimension, ⟨.single .int [3], none⟩⟩]
  blockSize := 1
  sortedColumns := []
  filter := none
  numDocs_le := by decide
  length_columns := by decide
  names_nodup := by decide
  blockSize_pos := Nat.one_pos

/-- A column that both segments have makes a table. -/
theorem fits_run_two :
    let q : Query := { kind := .selection, select := ["k"] }
    let combined := (q.run [narrow.segment, wide.segment]).value
    q.AgreeOnTypes [narrow, wide] ∧ combined.rows.rows = [[.int 1], [.int 2]] ∧
      ∃ t, DataTable.ofPartial combined = .ok t := by
  intro q combined
  have htypes : ∀ s ∈ [narrow, wide], ∀ r, (q.runOver s.segment).value = .ok r →
      r.schema.types = [.int] := by
    have hall : ∀ s ∈ [narrow, wide],
        (q.runOver s.segment).value.toOption.map (·.schema.types) = some [.int] := by decide +kernel
    intro s hs r hr
    have hone := hall s hs
    rw [hr] at hone
    exact Option.some.inj hone
  have hagree : q.AgreeOnTypes [narrow, wide] := fun s hs t ht r r' hr hr' =>
    (htypes s hs r hr).trans (htypes t ht r' hr').symm
  have hrows : combined.rows.rows = [[.int 1], [.int 2]] := by decide +kernel
  refine ⟨hagree, hrows, (fits_run q [narrow, wide] fun _ => hagree).2.2 ?_⟩
  show combined.rows.rows.length ≤ _
  rw [hrows]
  decide

/-- One document with a text where others have an integer. -/
def textual : MemorySegment where
  name := "textual"
  numDocs := 1
  columns := [⟨"k", .dimension, ⟨.single .string ["one"], none⟩⟩]
  blockSize := 1
  sortedColumns := []
  filter := none
  numDocs_le := by decide
  length_columns := by decide
  names_nodup := by decide
  blockSize_pos := Nat.one_pos

/-- A column of another type is combined under the first segment's
schema, and no exception tells. -/
theorem not_fits_run_textual :
    let q : Query := { kind := .selection, select := ["k"] }
    let combined := (q.run [narrow.segment, textual.segment]).value
    combined.exceptions = [] ∧ combined.schema.types = [.int] ∧
      [.string "one"] ∈ combined.rows.rows ∧
      ¬ Row.Fits combined.schema.types [.string "one"] := by
  intro q combined
  have htypes : combined.schema.types = [.int] := by decide +kernel
  refine ⟨by decide +kernel, htypes, by decide +kernel, ?_⟩
  rw [htypes]
  rintro (_ | ⟨hnull | hkind, -⟩)
  · exact nomatch hnull
  · exact nomatch hkind .int rfl

end Query

end SegmentQuery
