import SegmentQuery.Broker.Reduce
import SegmentQuery.Proofs.Number.Rounding
import SegmentQuery.Proofs.Result.FailedMerges
import SegmentQuery.Proofs.Result.Failures
import SegmentQuery.Proofs.Result.LimitFlag
/-!
# What a broker reports

The broker's answer carries the exceptions of all tables, then one more
when there is no result table, and the statistics of all tables added up.
A failure that ends the request has no answer. At the broker only a decimal
sum can fail so: one that was asked for with more digits than it can be
shown with. Every other failure is reported. Limits of allocation are left
out here: the room that the broker reserves for rows is taken to be there.
-/


namespace SegmentQuery

open SegmentQuery.Except (FailsOnly failsOnly_ok failsOnly_error)

/-! ## Decimal sums without a text -/

namespace Scaled

/-- Rounding to a single digit only takes places away. -/
theorem scale_toPrecision_le {precision : Nat} (h : precision ≤ 1) (x : Scaled) :
    (x.toPrecision precision).scale ≤ x.scale := by
  have hdigit : 0 < (Nat.toDigits 10 x.magnitude).length :=
    List.length_pos_iff.2 Nat.toDigits_ne_nil
  unfold toPrecision
  split
  · exact Nat.le_refl _
  · unfold roundSignificant
    split
    · exact Nat.zero_le _
    · dsimp only
      split
      · omega
      · split
        · exact Nat.le_refl _
        · split
          · exact (scale_roundPlaces x _).trans_le (Nat.min_le_left _ _)
          · split
            · exact Nat.zero_le _
            · exact Nat.le_refl _

end Scaled

namespace AggregateFunction

/-- A decimal sum asked for with more digits than it may have: with more
places than a decimal has, or with a precision that may take it there. -/
def AsksForDigits : AggregateFunction → Prop
  | .sumPrecision _ precision none _ => 1 < precision
  | .sumPrecision _ _ (some places) _ => Decimal.maxScale < places
  | _ => False

theorem asksForDigits_of_roundSum {column : String} {precision : Nat} {scale : Option Nat}
    {nullHandling : Bool} {total : Decimal} {e : QueryError}
    (h : roundSum precision scale total = .error e) :
    (AggregateFunction.sumPrecision column precision scale nullHandling).AsksForDigits := by
  cases scale with
  | none => exact nomatch h
  | some places =>
    rcases Nat.lt_or_ge Decimal.maxScale places with hlt | hle
    · exact hlt
    · obtain ⟨y, hsome, -⟩ := Scaled.exists_toScale?
        (Scaled.magnitude_toPrecision_lt precision total.magnitude_lt) hle
      simp only [roundSum, hsome] at h
      exact nomatch h

theorem asksForDigits_of_sumText {column : String} {precision : Nat} {scale : Option Nat}
    {nullHandling : Bool} {total : Decimal} {rounded : Scaled} {e : QueryError}
    (hrounded : roundSum precision scale total = .ok rounded) (h : sumText rounded = .error e) :
    (AggregateFunction.sumPrecision column precision scale nullHandling).AsksForDigits := by
  have hplaces : Scaled.maxPlaces < rounded.scale := by
    refine Nat.lt_of_not_le fun hle => ?_
    simp only [sumText, Scaled.text?, if_pos hle] at h
    exact nomatch h
  have hbound : Decimal.maxScale < Scaled.maxPlaces := by decide
  cases scale with
  | none =>
    obtain rfl := Except.ok.inj hrounded
    refine Nat.lt_of_not_le fun hle => ?_
    have := Scaled.scale_toPrecision_le hle total.toScaled
    have := total.scale_le
    omega
  | some places =>
    refine Nat.lt_of_not_le fun hle => ?_
    obtain ⟨y, hsome, hscale, -⟩ := Scaled.exists_toScale?
      (Scaled.magnitude_toPrecision_lt precision total.magnitude_lt) hle
    simp only [roundSum, hsome, Except.ok.injEq] at hrounded
    subst hrounded
    omega

/-- Failures that can be reported, and those of a decimal sum that is
asked for with too many digits. -/
def Contained (functions : List AggregateFunction) (e : QueryError) : Prop :=
  e.isFatal = true → ∃ f ∈ functions, f.AsksForDigits

variable {functions : List AggregateFunction}

theorem contained {e : QueryError} (h : e.isFatal = false) : Contained functions e :=
  fun hfatal => absurd hfatal (by simp [h])

theorem failsOnly_ofText (text : String) : FailsOnly (Contained functions) (Decimal.ofText text) :=
  FailsOnly.mapError (fun _ => contained rfl) _

theorem failsOnly_decimalOperand (cell : Cell) :
    FailsOnly (Contained functions) (decimalOperand cell) := by
  unfold decimalOperand
  split
  · exact failsOnly_ok _
  · exact failsOnly_ofText _
  · exact failsOnly_error (contained rfl)

theorem failsOnly_doubleOperand (kind : AggregateKind) (cell : Cell) :
    FailsOnly (Contained functions) (doubleOperand kind cell) := by
  unfold doubleOperand
  split
  · exact failsOnly_ok _
  · exact failsOnly_error (contained rfl)

theorem failsOnly_mergePresent {left right : Cell} {combine : Except QueryError Cell}
    (h : FailsOnly (Contained functions) combine) :
    FailsOnly (Contained functions) (mergePresent left right combine) := by
  unfold mergePresent
  split
  · exact failsOnly_ok _
  · split
    · exact failsOnly_ok _
    · exact h

theorem failsOnly_mergeAbsorbing {left right : Cell} {combine : Except QueryError Cell}
    (h : FailsOnly (Contained functions) combine) :
    FailsOnly (Contained functions) (mergeAbsorbing left right combine) := by
  unfold mergeAbsorbing
  split
  · exact failsOnly_ok _
  · exact h

/-- Values that do not merge can be reported. -/
theorem failsOnly_merge (f : AggregateFunction) (left right : Cell) :
    FailsOnly (Contained functions) (f.merge left right) := by
  cases f with
  | min _ =>
    exact failsOnly_mergePresent ((failsOnly_doubleOperand _ _).bind fun l =>
      (failsOnly_doubleOperand _ _).bind fun r => failsOnly_ok _)
  | max _ =>
    exact failsOnly_mergeAbsorbing ((failsOnly_doubleOperand _ _).bind fun l =>
      (failsOnly_doubleOperand _ _).bind fun r => failsOnly_ok _)
  | sum _ =>
    exact failsOnly_mergePresent ((failsOnly_doubleOperand _ _).bind fun l =>
      (failsOnly_doubleOperand _ _).bind fun r => failsOnly_ok _)
  | sumPrecision _ _ _ _ =>
    refine failsOnly_mergePresent ((failsOnly_decimalOperand _).bind fun l =>
      (failsOnly_decimalOperand _).bind fun r => ?_)
    split
    · exact failsOnly_ok _
    · exact failsOnly_error (contained rfl)
  | count _ =>
    refine failsOnly_mergePresent ?_
    split
    · exact failsOnly_ok _
    · exact failsOnly_error (contained rfl)

/-- **A value that cannot be made final** can be reported, unless too many
digits were asked for. -/
theorem failsOnly_finalize {f : AggregateFunction} (hf : f ∈ functions) (cell : Cell) :
    FailsOnly (Contained functions) (f.finalize cell) := by
  cases f with
  | min _ | max _ | sum _ | count _ => exact failsOnly_ok _
  | sumPrecision column precision scale nullHandling =>
    unfold finalize
    dsimp only
    split
    · exact failsOnly_ok _
    · refine (failsOnly_decimalOperand cell).bind fun total => ?_
      cases hrounded : roundSum precision scale total with
      | error e =>
        refine failsOnly_error fun _ => ?_
        exact ⟨_, hf, asksForDigits_of_roundSum hrounded⟩
      | ok rounded =>
        show FailsOnly _ (sumText rounded >>= fun text => .ok (Cell.string text))
        refine FailsOnly.bind (fun e htext _ => ?_) fun text => failsOnly_ok _
        exact ⟨_, hf, asksForDigits_of_sumText hrounded htext⟩

end AggregateFunction

open AggregateFunction (Contained contained)

/-! ## Rows and tables -/

variable {functions : List AggregateFunction}

theorem ColumnType.failsOnly_render (t : ColumnType) (cell : Cell) :
    FailsOnly (Contained functions) (t.render cell) := by
  refine FailsOnly.map ?_ _
  unfold convert
  split <;> first | exact failsOnly_ok _ | exact failsOnly_error (contained rfl)

/-- Rows that cannot be shown can be reported. -/
theorem ResultTable.failsOnly_render (schema : Schema) (rows : List Row) (names : List String) :
    FailsOnly (Contained functions) (ResultTable.render schema rows names) := by
  have hlocate (name : String) : FailsOnly (Contained functions) (locate schema name) := by
    unfold locate
    split
    · exact failsOnly_error (contained rfl)
    · split
      · exact failsOnly_ok _
      · exact failsOnly_error (contained rfl)
  refine (FailsOnly.mapM fun name _ => hlocate name).bind fun columns => ?_
  refine (FailsOnly.mapM fun row _ => ?_).bind fun rows => failsOnly_ok _
  exact FailsOnly.mapM fun column _ => ColumnType.failsOnly_render _ _

theorem OrderedRows.failsOnly_offerAll (r : OrderedRows) (rows : List Row) :
    FailsOnly (Contained functions) (r.offerAll rows).toExcept := by
  have hvalidate (row : Row) (keys : List (Nat × Direction)) :
      FailsOnly (Contained functions) (RowOrder.validateBy row keys) := by
    induction keys with
    | nil => exact failsOnly_ok _
    | cons key keys ih =>
      unfold RowOrder.validateBy
      dsimp only
      split
      · exact failsOnly_error (contained rfl)
      · exact ih
  rw [offerAll, Progress.toExcept_foldl]
  refine FailsOnly.foldlM (fun r row => ?_) rows r
  rw [Progress.toExcept_ofExcept]
  exact FailsOnly.map ((hvalidate row _).bind fun _ => failsOnly_ok _) _

namespace Broker

theorem failsOnly_reduceSelection (q : Query) (schema : Schema) (tables : List DataTable) :
    FailsOnly (Contained functions) (reduceSelection q schema tables) := by
  unfold reduceSelection
  dsimp only
  split
  · exact ResultTable.failsOnly_render _ _ _
  · refine FailsOnly.bind ?_ fun rows => ResultTable.failsOnly_render _ _ _
    exact (OrderedRows.failsOnly_offerAll _ _).bind fun rows => failsOnly_ok _

theorem failsOnly_finalizeRow (functions : List AggregateFunction) (row : Row) :
    FailsOnly (Contained functions) (finalizeRow functions row) :=
  FailsOnly.mapM fun pair hpair =>
    AggregateFunction.failsOnly_finalize (List.of_mem_zip hpair).1 pair.2

theorem failsOnly_reduceAggregation (q : Query) (tables : List DataTable) :
    FailsOnly (Contained q.functions) (reduceAggregation q tables) := by
  unfold reduceAggregation
  dsimp only
  split
  · exact failsOnly_ok _
  · refine FailsOnly.bind (FailsOnly.foldlM (fun left right => ?_) _ _) fun merged => ?_
    · exact FailsOnly.mapM fun _ _ => AggregateFunction.failsOnly_merge _ _ _
    · exact (failsOnly_finalizeRow _ _).bind fun row => ResultTable.failsOnly_render _ _ _

theorem failsOnly_mergeOnto (fs : List AggregateFunction) (current other : Row) :
    FailsOnly (Contained functions) (mergeOnto fs current other) := by
  induction fs generalizing current other with
  | nil => exact failsOnly_ok _
  | cons f fs ih =>
    cases current with
    | nil => exact failsOnly_ok _
    | cons left current =>
      cases other with
      | nil => exact failsOnly_ok _
      | cons right other =>
        exact (AggregateFunction.failsOnly_merge f left right).bind fun value =>
          (ih current other).bind fun rest => failsOnly_ok _

theorem failsOnly_reduceGroupBy (q : Query) (schema : Schema) (tables : List DataTable) :
    FailsOnly (Contained q.functions) (reduceGroupBy q schema tables) := by
  have hadd (table : GroupTable) (row : Row) :
      FailsOnly (Contained q.functions) (addGroup q table row) := by
    unfold addGroup
    dsimp only
    split
    · exact (failsOnly_mergeOnto _ _ _).bind fun _ => failsOnly_ok _
    · exact failsOnly_ok _
  have horder (schema : Schema) (item : OrderItem) :
      FailsOnly (Contained q.functions) (groupOrder.groupKey schema item) := by
    unfold groupOrder.groupKey
    split
    · exact failsOnly_ok _
    · exact failsOnly_error (contained rfl)
  refine (FailsOnly.foldlM hadd _ _).bind fun groups => ?_
  refine FailsOnly.bind (FailsOnly.mapM fun group _ =>
    (failsOnly_finalizeRow _ _).bind fun _ => failsOnly_ok _) fun rows => ?_
  split
  · exact ResultTable.failsOnly_render _ _ _
  · refine FailsOnly.bind ?_ fun sorted => ResultTable.failsOnly_render _ _ _
    exact FailsOnly.map (FailsOnly.map (FailsOnly.mapM fun item _ => horder _ item) _) _

theorem failsOnly_reduceDistinct (q : Query) (schema : Schema) (tables : List DataTable) :
    FailsOnly (Contained functions) (reduceDistinct q schema tables) := by
  have hadd (values : DistinctValues) (rows : List Row) :
      FailsOnly (Contained functions) (addDistinct values rows) := by
    induction rows generalizing values with
    | nil => exact failsOnly_ok _
    | cons row rows ih =>
      refine FailsOnly.bind ?_ fun values => ?_
      · unfold DistinctValues.addCell
        split
        · exact failsOnly_ok _
        · split
          · exact failsOnly_ok _
          · exact failsOnly_error (contained rfl)
      · split
        · exact failsOnly_ok _
        · exact ih values
  have horder : FailsOnly (Contained functions) q.distinctOrder := by
    unfold Query.distinctOrder
    split
    · exact failsOnly_ok _
    · split
      · exact failsOnly_ok _
      · exact failsOnly_error (contained rfl)
    · exact failsOnly_error (contained rfl)
  unfold reduceDistinct
  split
  · refine FailsOnly.bind (failsOnly_ok _) fun column => ?_
    dsimp only
    split
    · refine FailsOnly.bind (failsOnly_ok _) fun type => ?_
      refine horder.bind fun order => FailsOnly.bind ?_ fun empty =>
        (hadd empty _).bind fun values => ResultTable.failsOnly_render _ _ _
      unfold DistinctValues.forColumn
      split
      · exact failsOnly_ok _
      · exact failsOnly_error (contained rfl)
    · exact failsOnly_error (contained rfl)
  · exact failsOnly_error (contained rfl)

/-- **A reduction that fails can be reported**, unless a decimal sum was
asked for with too many digits. -/
theorem failsOnly_resultTable (q : Query) (tables : List DataTable) :
    FailsOnly (Contained q.functions) (resultTable q tables) := by
  unfold resultTable
  cases tables.filter fun t => !t.schema.isEmpty with
  | nil => exact failsOnly_ok _
  | cons first rest =>
    unfold reduceTables
    dsimp only
    cases q.kind with
    | selection => exact failsOnly_reduceSelection q _ _
    | aggregation => exact failsOnly_reduceAggregation q _
    | groupBy => exact failsOnly_reduceGroupBy q _ _
    | distinct => exact failsOnly_reduceDistinct q _ _

/-! ## Responses -/

/-- The statistics of a response are those of the tables. -/
theorem stats_reduce {q : Query} (tables : List DataTable) :
    (reduce q tables).stats = tables.foldl (fun stats t => stats.merge t.stats) {} := by
  unfold reduce
  cases resultTable q tables <;> rfl

/-- Every counter of a response adds up over the tables. -/
theorem counter_reduce {part : ExecutionStats → Nat} (h : part ∈ ExecutionStats.counters)
    {q : Query} (tables : List DataTable) :
    part (reduce q tables).stats = min (tables.map fun t => part t.stats).sum Counter.max64 := by
  have hzero : part {} = 0 := ExecutionStats.counter_default h
  have hfold : tables.foldl (fun stats t => stats.merge t.stats) {} =
      (tables.map DataTable.stats).foldl ExecutionStats.merge {} := List.foldl_map.symm
  rw [stats_reduce, hfold, ExecutionStats.counter_foldl h _ (hzero.le.trans (Nat.zero_le _)),
    hzero, Nat.zero_add, List.map_map]
  rfl

/-- **Each failure is reported once.** Combining makes of the results the
same schema, rows and statistics as without the failures between them. It
keeps their exceptions, adds one for each failure in order of occurrence,
and adds every counter up. The broker keeps the exceptions of all tables
and adds one exactly when there is no result table, unless the request
ends without an answer, which only a decimal sum with too many digits
brings about here. Limits of allocation, which can end a request as well,
are left out: there is room for whatever rows the combiner and the broker
hold. -/
theorem reports_failures (c : Combiner) (outcomes : List (Except QueryError PartialResult))
    (hcounters : ∀ r ∈ Combiner.answered outcomes, ∀ part ∈ ExecutionStats.counters,
      part r.stats ≤ Counter.max64)
    (q : Query) (tables : List DataTable) :
    let results := Combiner.answered outcomes
    let combined := (c.combine outcomes).value
    let undisturbed := (c.combine (results.map .ok)).value
    let response := reduce q tables
    let carried := tables.flatMap DataTable.exceptions
    (combined.schema = undisturbed.schema ∧ combined.rows = undisturbed.rows ∧
      combined.stats = undisturbed.stats) ∧
    combined.exceptions = results.flatMap PartialResult.exceptions ++
      (c.failures outcomes).map (fun e => ⟨200, e.report⟩) ∧
    (∀ part ∈ ExecutionStats.counters,
      part combined.stats = min (results.map fun r => part r.stats).sum Counter.max64) ∧
    ((∃ shown, resultTable q tables = .ok shown ∧
        response.table = some shown ∧ response.exceptions = carried) ∨
      (∃ e, resultTable q tables = .error e ∧ e.isFatal = false ∧
        response.table = none ∧ response.exceptions = carried ++ [⟨500, e.report⟩]) ∨
      (∃ e, resultTable q tables = .error e ∧ e.isFatal = true ∧
        ∃ f ∈ q.functions, f.AsksForDigits)) ∧
    (∀ part ∈ ExecutionStats.counters,
      part response.stats = min (tables.map fun t => part t.stats).sum Counter.max64) ∧
    response.stats.groupsLimitReached = tables.any (·.stats.groupsLimitReached) := by
  intro results combined undisturbed response carried
  have hcombined : combined = ((c.merged results).getD .empty).addExceptions
      ((c.failures outcomes).map Combiner.exceptionOf) := Combiner.combine_value outcomes
  have hundisturbed : undisturbed = ((c.merged results).getD .empty).addExceptions
      ((c.failures (results.map .ok)).map Combiner.exceptionOf) := by
    have h := Combiner.combine_value (c := c) (results.map .ok)
    rwa [Combiner.answered_map_ok] at h
  refine ⟨?_, ?_, ?_, ?_, ?_, ?_⟩
  · rw [hcombined, hundisturbed]
    exact ⟨rfl, rfl, rfl⟩
  · rw [hcombined]
    exact congrArg (· ++ _) (Combiner.exceptions_merged results)
  · intro part hpart
    rw [hcombined]
    exact Combiner.counter_merged hpart fun r hr => hcounters r hr part hpart
  · show _ ∨ _
    cases hshown : resultTable q tables with
    | ok shown =>
      have hresponse : response = ⟨some shown, response.stats, carried⟩ := by
        simp only [response, reduce, hshown, carried]
      refine .inl ⟨shown, rfl, ?_, ?_⟩ <;> rw [hresponse]
    | error e =>
      refine .inr ?_
      have hcontained := failsOnly_resultTable q tables e hshown
      cases hfatal : e.isFatal with
      | true => exact .inr ⟨e, rfl, hfatal, hcontained hfatal⟩
      | false =>
        have hresponse : response = ⟨none, response.stats, carried ++ [⟨500, e.report⟩]⟩ := by
          simp only [response, reduce, hshown, carried]
          rfl
        refine .inl ⟨e, rfl, hfatal, ?_, ?_⟩ <;> rw [hresponse]
  · exact fun part hpart => counter_reduce hpart tables
  · rw [stats_reduce, ExecutionStats.groupsLimitReached_foldl]
    rfl

/-- A table of one decimal sum, whose server has noted an exception. -/
def oneSum : DataTable where
  schema := ⟨[⟨"sumprecision(v)", .object, .metric⟩]⟩
  rows := [[.bigDecimal ⟨.ofCoeff 5 3, by decide, by decide⟩]]
  nulls := []
  metadata := .empty
  exceptions := [⟨235, "missing"⟩]

/-- A segment that fails and sums that overflow are reported after what
the results bring along. A sum asked for with 40 places has no answer. -/
theorem reports_failures_overflow :
    let c : Combiner := ⟨[.count none, .sumPrecision "v" 0 none false], 10, 10⟩
    let r : PartialResult :=
      { Combiner.countAndSum with stats := { docsScanned := 1 }, exceptions := [⟨235, "missing"⟩] }
    let outcomes : List (Except QueryError PartialResult) := [.error .zeroBlockSize, .ok r, .ok r]
    let q : Query := { kind := .aggregation, functions := [.sumPrecision "v" 0 (some 40) false] }
    (∀ r ∈ Combiner.answered outcomes, ∀ part ∈ ExecutionStats.counters,
      part r.stats ≤ Counter.max64) ∧
    (c.combine outcomes).value.exceptions =
      [⟨235, "missing"⟩, ⟨235, "missing"⟩, ⟨200, QueryError.zeroBlockSize.report⟩,
        ⟨200, QueryError.decimalSumOverflow.report⟩] ∧
    (c.combine outcomes).value.stats.docsScanned = 2 ∧
    resultTable q [oneSum] = .error (.unwritableSum 31) ∧ ∃ f ∈ q.functions, f.AsksForDigits := by
  intro c r outcomes q
  have hcounters : ∀ r ∈ Combiner.answered outcomes, ∀ part ∈ ExecutionStats.counters,
      part r.stats ≤ Counter.max64 := by
    decide
  have hfatal : resultTable q [oneSum] = .error (.unwritableSum 31) := by rfl
  obtain ⟨-, hexceptions, hstats, hanswer, -⟩ := reports_failures c outcomes hcounters q [oneSum]
  have hdocs : ExecutionStats.docsScanned ∈ ExecutionStats.counters := List.mem_cons_self
  refine ⟨hcounters, hexceptions, hstats _ hdocs, hfatal, ?_⟩
  rcases hanswer with ⟨shown, hshown, -⟩ | ⟨e, he, hreported, -⟩ | ⟨e, -, -, hdigits⟩
  · exact absurd (hshown.symm.trans hfatal) (by simp)
  · obtain rfl := Except.error.inj (he.symm.trans hfatal)
    exact absurd hreported (by decide)
  · exact hdigits

end Broker

end SegmentQuery
