import Mathlib.Data.List.Basic
import SegmentQuery.Proofs.Progress
import SegmentQuery.Result.Combine
/-!
# Merges that fail

A merge works on its target in place, so what it did before it failed
stays: rows of aggregates are merged up to the slot that does not merge,
group tables up to the group that does not, and ordered rows up to the
row that is refused. `Combiner.CutShort` says for each kind of rows what
is left behind. Only a merge that fails on its first step leaves its
target as it was.
-/


namespace SegmentQuery

namespace Combiner

variable {c : Combiner} {e : QueryError}

/-! ## What is left behind -/

/-- Aggregates merged slot by slot up to slot `n`, whose values do not
merge. The slots from there on are the target's own. -/
structure StopsAt (functions : List AggregateFunction) (e : QueryError) (target other left : Row)
    (n : Nat) : Prop where
  merged : ∀ i < n, ∃ f a b v, functions[i]? = some f ∧ target[i]? = some a ∧ other[i]? = some b ∧
    left[i]? = some v ∧ f.merge a b = .ok v
  failed : ∃ f a b, functions[n]? = some f ∧ target[n]? = some a ∧ other[n]? = some b ∧
    f.merge a b = .error e
  kept : left.drop n = target.drop n

/-- What a failed merge leaves behind of a row of aggregates. -/
inductive RowCut (c : Combiner) (e : QueryError) (target other : Row) : Row → Prop
  /-- A row without a value for each function is left alone. -/
  | widths : ¬(target.length = c.functions.length ∧ other.length = c.functions.length) →
      e = .aggregateWidths target.length other.length c.functions.length →
      RowCut c e target other target
  /-- The slots before the one that fails are merged. -/
  | slots {left : Row} {n : Nat} : target.length = c.functions.length →
      other.length = c.functions.length → StopsAt c.functions e target other left n →
      RowCut c e target other left

/-- What a merge that failed leaves behind, for each kind of rows. -/
inductive CutShort (c : Combiner) (e : QueryError) : ResultRows → ResultRows → ResultRows → Prop
  /-- Rows of different kinds are left alone. -/
  | kinds {target other : ResultRows} : target.kind ≠ other.kind →
      e = .mergeRows other.kind target.kind → CutShort c e target other target
  /-- Distinct values of different types are left alone. -/
  | values {target other : DistinctValues} : target.merge other = .error e →
      CutShort c e (.distinct target) (.distinct other) (.distinct target)
  /-- The rows before the one that is refused have been offered. -/
  | ordered {target other kept : OrderedRows} {before after : List Row} {row : Row} :
      other.layout = before ++ row :: after → target.offerAll before = .done kept →
      kept.offer row = .error e →
      CutShort c e (.orderedSelection target) (.orderedSelection other) (.orderedSelection kept)
  /-- A single row of aggregates. -/
  | aggregation {target other left : Row} : RowCut c e target other left →
      CutShort c e (.aggregation target) (.aggregation other) (.aggregation left)
  /-- The groups before the one that fails are merged, and that one up to
  the slot that fails. -/
  | groups {target other table : GroupTable} {dropped : Bool} {before after : List (List Key × Row)}
      {group : List Key × Row} {existing left : Row} :
      other.groups = before ++ group :: after →
      c.mergeGroups target ⟨before⟩ = .done (table, dropped) →
      table.find? group.1 = some existing → RowCut c e existing group.2 left →
      CutShort c e (.groupBy target) (.groupBy other) (.groupBy (table.insert group.1 left))

/-! ## Rows of aggregates -/

/-- **Slots merge up to the first that fails.** -/
theorem stopsAt_mergeSlots {functions : List AggregateFunction} {target other : Row}
    (h : (mergeSlots functions target other).error = some e) :
    ∃ n, StopsAt functions e target other (mergeSlots functions target other).state n := by
  induction functions generalizing target other with
  | nil => exact nomatch h
  | cons f functions ih =>
    cases target with
    | nil => exact nomatch h
    | cons a target =>
      cases other with
      | nil => exact nomatch h
      | cons b other =>
        cases hab : f.merge a b with
        | error e' =>
          simp only [mergeSlots, hab, Progress.stopped, Option.some.injEq] at h ⊢
          subst h
          exact ⟨0, by simp, ⟨f, a, b, rfl, rfl, rfl, hab⟩, rfl⟩
        | ok v =>
          simp only [mergeSlots, hab, Progress.error_map, Progress.state_map] at h ⊢
          obtain ⟨n, hmerged, hfailed, hkept⟩ := ih h
          refine ⟨n + 1, fun i hi => ?_, hfailed, hkept⟩
          cases i with
          | zero => exact ⟨f, a, b, v, rfl, rfl, rfl, rfl, hab⟩
          | succ i => exact hmerged i (Nat.lt_of_succ_lt_succ hi)

theorem rowCut_mergeAggregates {target other : Row}
    (h : (c.mergeAggregates target other).error = some e) :
    RowCut c e target other (c.mergeAggregates target other).state := by
  unfold mergeAggregates at h ⊢
  split at h
  · rename_i hwidths
    rw [if_pos hwidths]
    obtain ⟨n, hstops⟩ := stopsAt_mergeSlots h
    exact .slots hwidths.1 hwidths.2 hstops
  · rename_i hwidths
    rw [if_neg hwidths]
    exact .widths hwidths (Option.some.inj h).symm

/-! ## Groups and rows -/

/-- A group fails to merge where the table has its tuple and their
aggregates do not merge. -/
theorem of_mergeGroup {state : GroupTable × Bool} {group : List Key × Row}
    (h : (c.mergeGroup state group).error = some e) :
    ∃ existing left, state.1.find? group.1 = some existing ∧ RowCut c e existing group.2 left ∧
      (c.mergeGroup state group).state = (state.1.insert group.1 left, state.2) := by
  obtain ⟨table, dropped⟩ := state
  obtain ⟨tuple, aggregates⟩ := group
  unfold mergeGroup at h ⊢
  dsimp only at h ⊢
  split at h
  · rename_i existing hfound
    rw [hfound]
    exact ⟨existing, _, rfl, rowCut_mergeAggregates h, rfl⟩
  · split at h <;> exact nomatch h

theorem cutShort_mergeGroups {target other : GroupTable}
    (h : (c.mergeGroups target other).error = some e) :
    CutShort c e (.groupBy target) (.groupBy other)
      (.groupBy (c.mergeGroups target other).state.1) := by
  obtain ⟨before, group, after, ⟨table, dropped⟩, hgroups, hbefore, hgroup, hstate⟩ :=
    Progress.of_foldl h
  obtain ⟨existing, left, hfound, hcut, hleft⟩ := of_mergeGroup hgroup
  have htable : (c.mergeGroups target other).state = (table.insert group.1 left, dropped) :=
    hstate.trans hleft
  rw [htable]
  exact .groups hgroups hbefore hfound hcut

theorem cutShort_orderedRows {target other : OrderedRows}
    (h : (target.merge other).error = some e) :
    CutShort c e (.orderedSelection target) (.orderedSelection other)
      (.orderedSelection (target.merge other).state) := by
  obtain ⟨before, row, after, kept, hlayout, hbefore, hrow, hstate⟩ := Progress.of_foldl h
  obtain ⟨hrefused, hsame⟩ := Progress.of_ofExcept hrow
  have hoffer : kept.offer row = .error e := by
    cases hkept : kept.offer row with
    | ok r =>
      rw [hkept] at hrefused
      exact nomatch hrefused
    | error e' =>
      rw [hkept] at hrefused
      exact congrArg _ (Except.error.inj hrefused)
  have hleft : (target.merge other).state = kept := hstate.trans hsame
  rw [hleft]
  exact .ordered hlayout hbefore hoffer

/-- **Rows whose merge fails are cut short.** -/
theorem cutShort_mergeRows {target other : ResultRows}
    (h : (c.mergeRows target other).error = some e) :
    CutShort c e target other (c.mergeRows target other).state.1 := by
  unfold mergeRows at h ⊢
  split at h
  · exact nomatch h
  · exact nomatch h
  · exact cutShort_orderedRows h
  · exact .aggregation (rowCut_mergeAggregates h)
  · exact cutShort_mergeGroups h
  · rw [Progress.error_map] at h
    obtain ⟨hmerge, hsame⟩ := Progress.of_ofExcept h
    rw [Progress.state_map, hsame]
    exact .values hmerge
  · refine .kinds (fun hkind => ?_) (Option.some.inj h).symm
    cases target <;> cases other <;> simp_all [ResultRows.kind]

/-- **What a failed merge of results leaves behind.** The schema stays,
and the rows are cut short: what was merged before the failure stays
merged. Rows of a target without any never fail to merge. -/
theorem cutShort_mergeInto {target other : PartialResult}
    (h : (c.mergeInto target other).error = some e) :
    (c.mergeInto target other).state.schema = target.schema ∧
      CutShort c e target.rows other.rows (c.mergeInto target other).state.rows := by
  unfold mergeInto at h ⊢
  split at h
  · exact nomatch h
  · exact ⟨rfl, cutShort_mergeRows h⟩

/-- The largest decimal, which has no sum with itself. -/
def largestDecimal : Decimal := ⟨.ofCoeff 79228162514264337593543950335 0, by decide, Nat.zero_le _⟩

/-- A count of one document and the decimal sum of its value. -/
def countAndSum : PartialResult where
  schema := ⟨[⟨"count(*)", .long, .metric⟩, ⟨"sumprecision(v)", .object, .metric⟩]⟩
  rows := .aggregation [.long 1, .bigDecimal largestDecimal]
  stats := {}
  exceptions := []

/-- When two sums overflow the counts in front of them have been added. -/
theorem cutShort_mergeInto_overflow :
    let c : Combiner := ⟨[.count none, .sumPrecision "v" 0 none false], 10, 10⟩
    let merged := c.mergeInto countAndSum countAndSum
    merged.error = some .decimalSumOverflow ∧
      merged.state.rows = .aggregation [.long 2, .bigDecimal largestDecimal] ∧
      merged.state.schema = countAndSum.schema ∧
      CutShort c .decimalSumOverflow countAndSum.rows countAndSum.rows merged.state.rows := by
  intro c merged
  have herror : merged.error = some .decimalSumOverflow := by rfl
  obtain ⟨hschema, hcut⟩ := cutShort_mergeInto herror
  exact ⟨herror, rfl, hschema, hcut⟩

end Combiner

end SegmentQuery
