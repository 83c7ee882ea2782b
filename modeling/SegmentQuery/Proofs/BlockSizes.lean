import SegmentQuery.Proofs.Operator.Absorbing
import SegmentQuery.Proofs.Operator.DistinctScans
import SegmentQuery.Proofs.Selection.Strategies
import SegmentQuery.Proofs.Selection.Unordered
import SegmentQuery.Query
/-!
# Answers do not depend on block sizes

A segment that is scanned in blocks of another size gives the same rows.
Selections and distinct values are folds over the matching documents
themselves, whatever the blocks are; a grouping absorbs them one after
the other.
-/


namespace SegmentQuery

variable {s : MemorySegment} {options : Options} {a : Nat} {r : PartialResult}

/-! ## Selections -/

namespace Selection

/-- **A selection without an order** takes the same rows. -/
theorem rows_unordered_withBlockSize {select : List String}
    (h : (runUnordered (s.withBlockSize a).segment select options).value = .ok r) (b : Nat) :
    ∃ r', (runUnordered (s.withBlockSize b).segment select options).value = .ok r' ∧
      r'.schema = r.schema ∧ r'.rows = r.rows := by
  cases hschema : schema s.segment
      (fetchedExpressions select [] options.limit s.segment.columnNames) with
  | error e =>
    have hschema : schema (s.withBlockSize a).segment (fetchedExpressions select [] options.limit
      (s.withBlockSize a).segment.columnNames) = .error e := hschema
    rw [runUnordered, hschema] at h
    exact nomatch h
  | ok output =>
    have hschemas (size : Nat) : schema (s.withBlockSize size).segment (fetchedExpressions select []
      options.limit (s.withBlockSize size).segment.columnNames) = .ok output := hschema
    rcases Nat.eq_zero_or_pos options.limit with hzero | hlimit
    · rw [runUnordered, hschemas a] at h
      simp only [if_pos hzero] at h
      obtain rfl := Except.ok.inj h
      refine ⟨_, ?_, rfl, rfl⟩
      rw [runUnordered, hschemas b]
      simp only [if_pos hzero]
      rfl
    · obtain ⟨stats, hrun⟩ := runUnordered_eq hlimit (hschemas a)
      obtain ⟨stats', hrun'⟩ := runUnordered_eq hlimit (hschemas b)
      obtain rfl := Except.ok.inj (hrun.symm.trans h)
      exact ⟨_, hrun', rfl, rfl⟩

/-- **An ordered selection** lays out the same heap, whatever its
strategy. -/
theorem Plan.rows_withBlockSize {select : List String} {items : List OrderItem}
    (hlimit : 0 < options.limit)
    (h : (make (s.withBlockSize a).segment select items options).run.value = .ok r) (b : Nat) :
    ∃ r', (make (s.withBlockSize b).segment select items options).run.value = .ok r' ∧
      r'.schema = r.schema ∧ r'.rows = r.rows := by
  let plan (size : Nat) := make (s.withBlockSize size).segment select items options
  cases hschema : Selection.schema (plan a).segment (plan a).expressions with
  | error e => exact nomatch (run_of_schema_error hschema).symm.trans h
  | ok output =>
    have hschema' : Selection.schema (plan b).segment (plan b).expressions = .ok output := hschema
    obtain ⟨order, stats, horder, hrun⟩ := run_eq (s := s.withBlockSize a) (p := plan a) rfl
      orderWidth_make_le (rowsToKeep_pos hlimit) hschema
    obtain ⟨order', stats', horder', hrun'⟩ := run_eq (s := s.withBlockSize b) (p := plan b) rfl
      orderWidth_make_le (rowsToKeep_pos hlimit) hschema'
    have hfetch : s.Fetchable (plan a).expressions := fetchable_iff.2 ⟨output, hschema⟩
    have hkeys (size : Nat) : (plan size).order =
        .ok ⟨keysOver s (plan a) ((plan a).expressions.take (plan a).orderWidth) 0⟩ :=
      order_eq (s := s.withBlockSize size) (p := plan size) rfl hfetch
    obtain rfl : order' = order :=
      Except.ok.inj (horder'.symm.trans ((hkeys b).trans ((hkeys a).symm.trans horder)))
    obtain rfl := Except.ok.inj (hrun.symm.trans h)
    exact ⟨_, hrun', rfl, rfl⟩

end Selection

/-! ## Distinct values -/

namespace Distinct

variable {column : String} {order : Option Direction}

/-- Only a single-value column has distinct values. -/
theorem single_of_run
    (h : (run s.segment column order options).value = .ok r) :
    ∃ c, s.find column = .ok c ∧ c.column.isSingleValue = true := by
  unfold run at h
  simp only at h
  split at h
  · cases h
  · rename_i hprepared
    obtain ⟨metadata, hmetadata, hprepared⟩ := Except.bind_eq_ok.1 hprepared
    obtain ⟨type, -, hprepared⟩ := Except.bind_eq_ok.1 hprepared
    obtain ⟨values, hvalues, -⟩ := Except.bind_eq_ok.1 hprepared
    obtain ⟨c, hfind, rfl⟩ := Except.map_eq_ok.1 hmetadata
    refine ⟨c, hfind, ?_⟩
    by_contra hmulti
    rw [DistinctValues.forColumn, if_neg hmulti] at hvalues
    cases hvalues

/-- **A scan for distinct values** collects the same. -/
theorem rows_withBlockSize
    (h : (run (s.withBlockSize a).segment column order options).value = .ok r) (b : Nat) :
    ∃ r', (run (s.withBlockSize b).segment column order options).value = .ok r' ∧
      r'.schema = r.schema ∧ r'.rows = r.rows := by
  obtain ⟨c, hfind, hsingle⟩ := single_of_run h
  obtain ⟨stats, hrun⟩ := @run_ok order (s.withBlockSize a) c column options hfind hsingle
  obtain ⟨stats', hrun'⟩ :=
    @run_ok order (s.withBlockSize b) c column options hfind hsingle
  obtain rfl := Except.ok.inj (hrun.symm.trans h)
  exact ⟨_, hrun', rfl, rfl⟩

end Distinct

/-! ## Queries -/

namespace Query

variable {q : Query}

/-- Where a query that aggregates nothing whole is answered under one block
size, it is answered so under any other. -/
theorem rows_withBlockSize (hkind : q.kind ≠ .aggregation)
    (h : (q.runOver (s.withBlockSize a).segment).value = .ok r) (b : Nat) :
    ∃ r', (q.runOver (s.withBlockSize b).segment).value = .ok r' ∧
      r'.schema = r.schema ∧ r'.rows = r.rows := by
  unfold runOver at h ⊢
  cases hq : q.kind with
  | aggregation => exact absurd hq hkind
  | groupBy =>
    rw [hq] at h
    exact GroupBy.rows_withBlockSize h b
  | selection =>
    rw [hq] at h
    dsimp only at h ⊢
    split_ifs at h ⊢ with hordered
    · exact Selection.rows_unordered_withBlockSize h b
    · have hlimit : 0 < q.options.limit := by
        simp only [Bool.or_eq_true, beq_iff_eq, not_or] at hordered
        exact Nat.pos_of_ne_zero hordered.2
      exact Selection.Plan.rows_withBlockSize hlimit h b
  | distinct =>
    rw [hq] at h
    dsimp only at h ⊢
    split at h
    · exact nomatch h
    · exact Distinct.rows_withBlockSize h b

/-- **The answer for a segment does not depend on its block size.** Any
query but a whole aggregation is answered under both of two block sizes,
by the same rows under the same schema, or fails under both. The rows are
compared as they are kept: an ordered selection by its heap array, a
grouping by every group's aggregates to the bit. -/
theorem agree_withBlockSize (q : Query) (hkind : q.kind ≠ .aggregation) (s : MemorySegment)
    (a b : Nat) :
    Except.Agree (fun r r' => r'.schema = r.schema ∧ r'.rows = r.rows)
      (q.runOver (s.withBlockSize a).segment).value (q.runOver (s.withBlockSize b).segment).value := by
  refine Except.agree_of_imp (fun r h => rows_withBlockSize hkind h b) fun r' h => ?_
  obtain ⟨r, hr, -⟩ := rows_withBlockSize hkind h a
  exact ⟨r, hr⟩

/-- Three documents that fall into two groups and one document for which
there is no third, scanned one by one and all at once. -/
theorem agree_withBlockSize_three :
    let q : Query :=
      { kind := .groupBy
        groupBy := ["a"]
        functions := [.sum "b", .min "b", .count none]
        options := { numGroupsLimit := 2 } }
    let s := Selection.Plan.threeDocuments
    q.kind ≠ .aggregation ∧ (q.runOver (s.withBlockSize 1).segment).value.toOption.isSome = true ∧
      Except.Agree (fun r r' => r'.schema = r.schema ∧ r'.rows = r.rows)
        (q.runOver (s.withBlockSize 1).segment).value
        (q.runOver (s.withBlockSize 3).segment).value := by
  intro q s
  have hkind : q.kind ≠ .aggregation := by decide
  exact ⟨hkind, by decide +kernel, agree_withBlockSize q hkind s 1 3⟩

end Query

end SegmentQuery
