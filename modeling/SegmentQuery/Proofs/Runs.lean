import SegmentQuery.Proofs.Operator.Distinct
import SegmentQuery.Proofs.Result.Combining
import SegmentQuery.Proofs.Segment.Alike
import SegmentQuery.Query
/-!
# Runs over segments

A run over several segments that leaves no exception has a result of
every segment, and merges them into the first one in order. What the
results look like is settled by the kind of the query.
-/


namespace SegmentQuery

variable {q : Query}

/-! ## Results of one segment -/

namespace Selection

/-- A selection without an order yields plain rows, a column for each
expression that it fetches. -/
theorem of_runUnordered {segment : Segment} {select : List String} {options : Options}
    {r : PartialResult} (h : (runUnordered segment select options).value = .ok r) :
    r.schema.width =
      (fetchedExpressions select [] options.limit segment.columnNames).length ∧
      ∃ rows, r.rows = .selection rows := by
  unfold runUnordered at h
  simp only at h
  split at h
  · exact nomatch h
  · rename_i output hschema
    by_cases hlimit : options.limit = 0
    · rw [if_pos hlimit] at h
      obtain rfl := Except.ok.inj h
      exact ⟨width_schema hschema, _, rfl⟩
    · rw [if_neg hlimit] at h
      obtain ⟨scanned, -, rfl⟩ := Except.map_eq_ok.1 h
      exact ⟨width_schema hschema, _, rfl⟩

end Selection

namespace Aggregation

/-- An aggregation yields one row, under a column for each function. -/
theorem of_run {segment : Segment} {functions : List AggregateFunction} {options : Options}
    {r : PartialResult} (h : (run segment functions options).value = .ok r) :
    r.schema.width = functions.length ∧ ∃ row, r.rows = .aggregation row := by
  obtain ⟨scanned, -, rfl⟩ := Except.map_eq_ok.1 h
  exact ⟨List.length_map _, _, rfl⟩

end Aggregation

namespace GroupBy

/-- A grouping yields a column for each group-by column and each
function. -/
theorem width_run {segment : Segment} {groupBy : List String} {functions : List AggregateFunction}
    {options : Options} {r : PartialResult}
    (h : (run segment groupBy functions options).value = .ok r) :
    r.schema.width = groupBy.length + functions.length := by
  unfold run at h
  split at h
  · exact nomatch h
  · rename_i output multiValue hschema
    obtain ⟨scanned, -, h⟩ := Except.bind_eq_ok.1 h
    obtain ⟨t, -, h⟩ := Except.bind_eq_ok.1 h
    obtain rfl := Except.ok.inj h
    obtain ⟨keys, hkeys, houtput⟩ := Except.bind_eq_ok.1 hschema
    obtain ⟨rfl, -⟩ := Prod.mk.inj (Except.ok.inj houtput)
    show (keys.map (·.1) ++ Aggregation.intermediateColumns functions).length = _
    rw [List.length_append, List.length_map, ← (Except.mapM_eq_ok.1 hkeys).length_eq]
    exact congrArg (groupBy.length + ·) (List.length_map _)

end GroupBy

namespace Query

/-- How many columns the results of a query have over segments with these
columns. -/
def outputWidth (q : Query) (columns : List String) : Nat :=
  match q.kind with
  | .selection => (Selection.fetchedExpressions q.select [] q.options.limit columns).length
  | .aggregation => q.functions.length
  | .groupBy => q.groupBy.length + q.functions.length
  | .distinct => 1

theorem outputWidth_congr (q : Query) {columns columns' : List String} (h : columns.Perm columns') :
    q.outputWidth columns = q.outputWidth columns' := by
  unfold outputWidth
  cases q.kind with
  | selection =>
    exact congrArg List.length (Selection.fetchedExpressions_congr h q.select [] q.options.limit)
  | _ => rfl

/-- The order of a distinct query's column is the query's. -/
theorem distinctOrder_of_distinctColumn {column : String} {order : Option Direction}
    (h : q.distinctColumn = .ok (column, order)) : q.distinctOrder = .ok order := by
  unfold distinctColumn at h
  split at h
  · exact nomatch h
  · obtain ⟨order', horder, hpair⟩ := Except.map_eq_ok.1 h
    rw [horder, (Prod.mk.inj hpair).2]

/-- What a distinct query runs. -/
theorem of_runOver_distinct {segment : Segment} {r : PartialResult} (hkind : q.kind = .distinct)
    (h : (q.runOver segment).value = .ok r) : ∃ column order,
      q.distinctColumn = .ok (column, order) ∧
      (Distinct.run segment column order q.options).value = .ok r := by
  rw [runOver, hkind] at h
  simp only at h
  cases hcolumn : q.distinctColumn with
  | error e =>
    rw [hcolumn] at h
    exact nomatch h
  | ok pair =>
    obtain ⟨column, order⟩ := pair
    rw [hcolumn] at h
    exact ⟨column, order, rfl, h⟩

/-- A selection without an order runs as such. -/
theorem runOver_selection {segment : Segment} (hkind : q.kind = .selection)
    (hplain : q.orderBy = []) :
    q.runOver segment = Selection.runUnordered segment q.select q.options := by
  have hempty : (q.orderBy.isEmpty || q.options.limit == 0) = true := by rw [hplain]; rfl
  rw [runOver, hkind]
  simp only [hempty, if_true]

/-- **Results of one query over like segments are equally wide.** -/
theorem width_of_runOver {segment : Segment} {r : PartialResult}
    (hplain : q.kind = .selection → q.orderBy = []) (h : (q.runOver segment).value = .ok r) :
    r.schema.width = q.outputWidth segment.columnNames := by
  unfold outputWidth
  cases hkind : q.kind with
  | selection =>
    rw [runOver_selection hkind (hplain hkind)] at h
    exact (Selection.of_runUnordered h).1
  | aggregation =>
    rw [runOver, hkind] at h
    exact (Aggregation.of_run h).1
  | groupBy =>
    rw [runOver, hkind] at h
    exact GroupBy.width_run h
  | distinct =>
    obtain ⟨column, order, -, hrun⟩ := of_runOver_distinct hkind h
    obtain ⟨type, role, d, hschema, -⟩ := Distinct.collects_run hrun
    rw [hschema]
    rfl

/-! ## Runs -/

theorem value_run (segments : List Segment) :
    (q.run segments).value =
      (q.combiner.combine (segments.map fun s => (q.runOver s).value)).value := by
  show (q.combiner.combine (Traced.sequence (segments.map q.runOver)).value).value = _
  rw [Traced.value_sequence, List.map_map]
  rfl

/-- The result of a run over no segments. -/
theorem value_run_nil : (q.run []).value = .empty := rfl

/-- What one segment yields is its own combination. -/
theorem value_run_singleton {segment : Segment} {r : PartialResult}
    (h : (q.runOver segment).value = .ok r) : (q.run [segment]).value = r := by
  have hone : q.combiner.combine [.ok r] = q.combiner.combine ([r].map .ok) := rfl
  rw [value_run, List.map_singleton, h, hone]
  exact Combiner.combine_ok rfl

/-- A run over segments that all answer yields what the merges yield. -/
theorem value_run_of_outcomes {segments : List MemorySegment} {first r : PartialResult}
    {rest : List PartialResult}
    (houtcomes : List.Forall₂ (fun s r => (q.runOver (MemorySegment.segment s)).value = .ok r)
      segments (first :: rest))
    (hfold : rest.foldlM q.combiner.mergeResult first = .ok r) :
    (q.run (segments.map MemorySegment.segment)).value = r := by
  rw [value_run, List.map_map, ← Combiner.combine_ok hfold]
  exact congrArg (fun outcomes => (q.combiner.combine outcomes).value)
    (forall₂_iff_map_eq.1 houtcomes)

/-- A run without an exception merges a result of every segment. -/
theorem of_run {segments : List MemorySegment}
    (h : (q.run (segments.map MemorySegment.segment)).value.exceptions = []) :
    segments = [] ∨ ∃ first rest r,
      List.Forall₂ (fun s r => (q.runOver (MemorySegment.segment s)).value = .ok r) segments
        (first :: rest) ∧
      rest.foldlM q.combiner.mergeResult first = .ok r ∧
      (q.run (segments.map MemorySegment.segment)).value = r := by
  rw [value_run] at h ⊢
  rcases Combiner.of_combine h with hnil | ⟨first, rest, r, houtcomes, hfold⟩
  · exact .inl (List.map_eq_nil_iff.1 (List.map_eq_nil_iff.1 hnil))
  · rw [List.map_map] at houtcomes
    have hsteps := forall₂_iff_map_eq.2 houtcomes
    rw [← value_run]
    exact .inr ⟨first, rest, r, hsteps, hfold, value_run_of_outcomes hsteps hfold⟩

end Query

end SegmentQuery
