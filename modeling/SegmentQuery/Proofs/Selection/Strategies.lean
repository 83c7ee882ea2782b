import SegmentQuery.Proofs.Selection.OnePass
import SegmentQuery.Proofs.Selection.TwoPass
/-!
# What the strategies collect

A query's plan over a segment either fails with its schema or collects
rows. Unless the segment is declared sorted it collects the rows of all
matching documents, in one pass or in two.
-/


namespace SegmentQuery

namespace Selection

namespace Plan

variable {s : MemorySegment} {p : Plan} {order : RowOrder} {schema : Schema}

/-- A refused schema is the answer. -/
theorem run_of_schema_error {e : QueryError}
    (h : Selection.schema p.segment p.expressions = .error e) : p.run.value = .error e := by
  rw [run, h]
  rfl

/-- With an accepted schema and rows to keep, a plan runs by its
strategy. -/
theorem run_of_strategy {rows : OrderedRows} {stats : ExecutionStats}
    (hschema : Selection.schema p.segment p.expressions = .ok schema)
    (horder : p.order = .ok order) (hkeep : 0 < p.keep)
    (hrun : (if p.strategy = .partiallyOrdered then p.runTwoPasses order
      else p.runOnePass order).value = .ok (rows, stats)) :
    p.run.value = .ok ⟨schema, .orderedSelection rows, stats, []⟩ := by
  rw [run, hschema, horder]
  simp only [bind, Except.bind, pure, Except.pure, if_neg (Nat.pos_iff_ne_zero.1 hkeep)]
  simp only [Traced.map, hrun, Except.map]

/-- The rows of documents, in the plan's columns. -/
def rowsOf (s : MemorySegment) (p : Plan) (documents : List Nat) : List Row :=
  documents.map (s.row p.nullHandling p.expressions)

/-- The order of a plan accepts the rows of the segment. -/
theorem validate_rowsOf (hp : p.segment = s.segment) (hfetch : s.Fetchable p.expressions)
    (horder : p.order = .ok order) (documents : List Nat) :
    ∀ row ∈ rowsOf s p documents, order.validate row = .ok () := by
  intro row hrow
  obtain ⟨d, -, rfl⟩ := List.mem_map.1 hrow
  exact validate_row hp hfetch horder p.nullHandling d

/-- **A plan over a segment that is not declared sorted collects the rows
of all matching documents.** -/
theorem run_whole (hp : p.segment = s.segment) (hwidth : p.orderWidth ≤ p.expressions.length)
    (hkeep : 0 < p.keep) (hstrategy : p.strategy ≠ .preSorted)
    (hschema : Selection.schema p.segment p.expressions = .ok schema) :
    ∃ order stats, p.order = .ok order ∧ p.run.value = .ok ⟨schema, .orderedSelection
      ((rowsOf s p s.matching).foldl OrderedRows.put (.empty order p.keep)), stats, []⟩ := by
  have hfetch : s.Fetchable p.expressions := fetchable_iff.2 ⟨schema, hp ▸ hschema⟩
  have horder := order_eq hp hfetch
  by_cases htwo : p.strategy = .partiallyOrdered
  · obtain ⟨stats, hrun⟩ := runTwoPasses_eq hp hfetch horder hwidth
    exact ⟨_, stats, horder, run_of_strategy hschema horder hkeep (by rw [if_pos htwo]; exact hrun)⟩
  · obtain ⟨stats, hrun⟩ := runOnePass_whole hp hfetch horder hstrategy
    exact ⟨_, stats, horder, run_of_strategy hschema horder hkeep (by rw [if_neg htwo]; exact hrun)⟩

/-- **A plan over a segment that is declared sorted collects the rows of
the first matching documents**, as many as it is to keep. -/
theorem run_front (hp : p.segment = s.segment) (hkeep : 0 < p.keep)
    (hstrategy : p.strategy = .preSorted)
    (hschema : Selection.schema p.segment p.expressions = .ok schema) :
    ∃ order stats, p.order = .ok order ∧ p.run.value = .ok ⟨schema, .orderedSelection
      ((rowsOf s p (s.matching.take p.keep)).foldl OrderedRows.put (.empty order p.keep)),
        stats, []⟩ := by
  have hfetch : s.Fetchable p.expressions := fetchable_iff.2 ⟨schema, hp ▸ hschema⟩
  have horder := order_eq hp hfetch
  have hone : p.strategy ≠ .partiallyOrdered := by
    rw [hstrategy]
    decide
  obtain ⟨stats, hrun⟩ := runOnePass_front hp hfetch horder hstrategy hkeep
  exact ⟨_, stats, horder, run_of_strategy hschema horder hkeep (by rw [if_neg hone]; exact hrun)⟩

/-- The documents whose rows a plan collects. -/
def documentsOf (s : MemorySegment) (p : Plan) : List Nat :=
  if p.strategy = .preSorted then s.matching.take p.keep else s.matching

/-- **What a plan collects**, whatever its strategy: the rows of its
documents, offered in document order. -/
theorem run_eq (hp : p.segment = s.segment) (hwidth : p.orderWidth ≤ p.expressions.length)
    (hkeep : 0 < p.keep) (hschema : Selection.schema p.segment p.expressions = .ok schema) :
    ∃ order stats, p.order = .ok order ∧ p.run.value = .ok ⟨schema, .orderedSelection
      ((rowsOf s p (documentsOf s p)).foldl OrderedRows.put (.empty order p.keep)), stats, []⟩ := by
  unfold documentsOf
  split
  · exact run_front hp hkeep ‹_› hschema
  · exact run_whole hp hwidth hkeep ‹_› hschema

/-- A segment that is declared sorted on nothing is not read as if it
were sorted. -/
theorem strategy_ne_preSorted {select : List String} {items : List OrderItem} {options : Options}
    (hordered : items ≠ []) (hunsorted : s.sortedColumns = []) :
    (make s.segment select items options).strategy ≠ .preSorted := by
  obtain ⟨item, rest, rfl⟩ := List.exists_cons_of_ne_nil hordered
  have hnone : s.segment.isSortedOn item.expression = false := by
    show s.sortedColumns.contains item.expression = false
    rw [hunsorted]
    rfl
  unfold strategy
  rw [if_neg ?_]
  · split <;> exact Strategy.noConfusion
  · show ¬ (item.direction.isAsc && s.segment.isSortedOn item.expression && _) = true
    rw [hnone, Bool.and_false, Bool.false_and]
    exact Bool.false_ne_true

/-- **Two passes make the collection that one pass over the full rows
makes.** Where a query is planned in two passes over a segment, it either
fails with its schema or yields the collection that results from offering
every matching document's full row in document order: the same heap array
under the same maximum and order. Every row kept is that of a matching
document. -/
theorem twoPass_eq_offerAll (s : MemorySegment) (select : List String) (items : List OrderItem)
    (options : Options) (hlimit : 0 < options.limit)
    (hstrategy : (make s.segment select items options).strategy = .partiallyOrdered) :
    let p := make s.segment select items options
    (∀ e, Selection.schema s.segment p.expressions = .error e → p.run.value = .error e) ∧
      ∀ schema, Selection.schema s.segment p.expressions = .ok schema →
        ∃ order rows stats, p.order = .ok order ∧
          (p.runTwoPasses order).value = .ok (rows, stats) ∧
          p.run.value = .ok ⟨schema, .orderedSelection rows, stats, []⟩ ∧
          (OrderedRows.empty order options.rowsToKeep).offerAll
            (s.matching.map (s.row options.nullHandling p.expressions)) = .done rows ∧
          ∀ row ∈ rows.layout, ∃ d ∈ s.matching,
            row = s.row options.nullHandling p.expressions d := by
  intro p
  refine ⟨fun e he => run_of_schema_error he, fun schema hschema => ?_⟩
  have hfetch : s.Fetchable p.expressions := fetchable_iff.2 ⟨schema, hschema⟩
  have horder : p.order = .ok _ := order_eq rfl hfetch
  obtain ⟨stats, hrun⟩ := runTwoPasses_eq rfl hfetch horder orderWidth_make_le
  refine ⟨_, _, stats, horder, hrun, ?_, ?_, ?_⟩
  · refine run_of_strategy hschema horder (rowsToKeep_pos hlimit) ?_
    rw [if_pos hstrategy]
    exact hrun
  · exact OrderedRows.offerAll_ok (validate_rowsOf rfl hfetch horder s.matching)
  · intro row hrow
    obtain ⟨dropped, hbest⟩ := OrderedRows.isBest_offerAll _ p.keep (rowsOf s p s.matching)
    have hmem := hbest.perm.mem_iff.2 (List.mem_append_left dropped hrow)
    obtain ⟨d, hd, rfl⟩ := List.mem_map.1 hmem
    exact ⟨d, hd, rfl⟩

/-- Three documents in two columns. -/
def threeDocuments : MemorySegment where
  name := "three"
  numDocs := 3
  columns :=
    [⟨"a", .dimension, ⟨.single .int [3, 1, 2], none⟩⟩, ⟨"b", .metric, ⟨.single .int [7, 8, 9], none⟩⟩]
  blockSize := 2
  sortedColumns := []
  filter := none
  numDocs_le := by decide
  length_columns := by decide
  names_nodup := by decide
  blockSize_pos := Nat.two_pos

/-- Three documents ordered by one column, with another one to fetch for
the best. -/
theorem twoPass_eq_offerAll_three :
    let p := make threeDocuments.segment ["b"] [⟨"a", .asc⟩] { limit := 1 }
    p.strategy = .partiallyOrdered ∧
      ∃ order rows stats, (p.runTwoPasses order).value = .ok (rows, stats) ∧
        (OrderedRows.empty order 1).offerAll
          (threeDocuments.matching.map (threeDocuments.row false ["a", "b"])) = .done rows := by
  intro p
  have hstrategy : p.strategy = .partiallyOrdered := by decide
  have hschema : Selection.schema threeDocuments.segment p.expressions =
      .ok ⟨[⟨"a", .int, .dimension⟩, ⟨"b", .int, .metric⟩]⟩ := by decide
  obtain ⟨-, hrun⟩ := twoPass_eq_offerAll threeDocuments ["b"] [⟨"a", .asc⟩] { limit := 1 }
    (by decide) hstrategy
  obtain ⟨order, rows, stats, -, htwo, -, hoffer, -⟩ := hrun _ hschema
  exact ⟨hstrategy, order, rows, stats, htwo, hoffer⟩

end Plan

end Selection

end SegmentQuery
