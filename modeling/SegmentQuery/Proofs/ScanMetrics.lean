import SegmentQuery.Proofs.Operator.Scanning
import SegmentQuery.Proofs.Result.Failures
import SegmentQuery.Proofs.Runs
/-!
# Metrics and statistics count the same documents

An operator run on a segment emits a start and a report of what it has
scanned, or fails before it starts; a run that fails midway reports what it
had scanned by then. The totals are the sums of what was emitted, those of
all operators together and those of each, up to the greatest counter. The
documents that a run reports are those in the statistics of its result, so
where no segment fails the metrics and the combined statistics agree on
them.
-/


namespace SegmentQuery

/-! ## Events -/

namespace MetricEvent

/-- Whether an event starts or ends an operator run. -/
def isSpan : MetricEvent → Bool
  | .operatorStart _ => true
  | .blocksScanned _ _ _ => true
  | _ => false

/-- The operator runs that an event starts. -/
def starts : MetricEvent → Nat
  | .operatorStart _ => 1
  | _ => 0

/-- The blocks that an event reports. -/
def blocks : MetricEvent → Nat
  | .blocksScanned _ blocks _ => blocks
  | _ => 0

/-- The documents that an event reports. -/
def documents : MetricEvent → Nat
  | .blocksScanned _ _ documents => documents
  | _ => 0

/-- The events of one operator run. -/
def span (kind : OperatorKind) (blocks documents : Nat) : List MetricEvent :=
  [.operatorStart kind, .blocksScanned kind blocks documents]

/-- Only starts and reports of operator runs report documents. -/
theorem sum_documents (events : List MetricEvent) :
    (events.map documents).sum = ((events.filter isSpan).map documents).sum := by
  induction events with
  | nil => rfl
  | cons e events ih =>
    rw [List.map_cons, List.sum_cons, ih, List.filter_cons]
    cases e <;> simp [isSpan, documents]

end MetricEvent

open MetricEvent

/-! ## Totals -/

namespace Metrics

variable {m : Metrics}

/-- Totals that are those of all operators together. -/
structure Balanced (m : Metrics) : Prop where
  nodup : (m.operators.map Prod.fst).Nodup
  calls : m.operatorCalls = min (m.operators.map fun o => o.2.calls).sum Counter.max64
  blocks : m.blocksScanned = min (m.operators.map fun o => o.2.blocksScanned).sum Counter.max64
  documents : m.docsScanned = min (m.operators.map fun o => o.2.docsScanned).sum Counter.max64

/-- What one operator has counts once among what all have. -/
theorem sum_operators (h : (m.operators.map Prod.fst).Nodup) {part : OperatorCounters → Nat}
    (hpart : part {} = 0) (kind : OperatorKind) :
    (m.operators.map fun o => part o.2).sum = part (m.operator kind) +
      ((m.operators.filter (·.1 ≠ kind)).map fun o => part o.2).sum := by
  unfold operator
  generalize m.operators = operators at h
  induction operators with
  | nil => simp [hpart]
  | cons o operators ih =>
    obtain ⟨hnew, hnodup⟩ := List.nodup_cons.1 h
    rw [List.map_cons, List.sum_cons, List.lookup_cons, List.filter_cons]
    by_cases hkind : o.1 = kind
    · -- no other entry is of this kind
      have hothers : operators.filter (·.1 ≠ kind) = operators := by
        refine List.filter_eq_self.2 fun o' ho' => decide_eq_true fun hsame => hnew ?_
        exact List.mem_map.2 ⟨o', ho', hsame.trans hkind.symm⟩
      rw [if_neg (by simpa using hkind), hothers, hkind, beq_self_eq_true]
      rfl
    · have hne : (kind == o.1) = false := beq_eq_false_iff_ne.2 fun h => hkind h.symm
      have hrest := ih hnodup
      rw [if_pos (decide_eq_true hkind), hne, List.map_cons, List.sum_cons]
      dsimp only
      omega

/-- New totals of one operator change the sum by what it has more. -/
theorem sum_setOperator (h : (m.operators.map Prod.fst).Nodup) {part : OperatorCounters → Nat}
    (hpart : part {} = 0) (kind : OperatorKind) (c : OperatorCounters) :
    ((m.setOperator kind c).operators.map fun o => part o.2).sum + part (m.operator kind) =
      (m.operators.map fun o => part o.2).sum + part c := by
  have hset : ((m.setOperator kind c).operators.map fun o => part o.2).sum =
      part c + ((m.operators.filter (·.1 ≠ kind)).map fun o => part o.2).sum := List.sum_cons
  have hall := sum_operators h hpart kind
  omega

theorem nodup_setOperator (h : (m.operators.map Prod.fst).Nodup) (kind : OperatorKind)
    (c : OperatorCounters) : ((m.setOperator kind c).operators.map Prod.fst).Nodup := by
  refine List.nodup_cons.2 ⟨fun hmem => ?_, h.sublist (List.filter_sublist.map Prod.fst)⟩
  obtain ⟨o, ho, hkind⟩ := List.mem_map.1 hmem
  exact of_decide_eq_true (List.mem_filter.1 ho).2 hkind

/-- Totals of one operator that have grown make a total that has grown. -/
theorem sum_grown (h : (m.operators.map Prod.fst).Nodup) {part : OperatorCounters → Nat}
    (hpart : part {} = 0) {kind : OperatorKind} {c : OperatorCounters} {total amount : Nat}
    (htotal : total = min (m.operators.map fun o => part o.2).sum Counter.max64)
    (hc : part c = Counter.add (part (m.operator kind)) amount) :
    Counter.add total amount =
      min ((m.setOperator kind c).operators.map fun o => part o.2).sum Counter.max64 := by
  have hsum := sum_setOperator h hpart kind c
  -- an operator alone reaches the greatest counter only when all together do
  have hle : part (m.operator kind) ≤ (m.operators.map fun o => part o.2).sum :=
    (sum_operators h hpart kind).symm ▸ Nat.le_add_right _ _
  unfold Counter.add at hc ⊢
  omega

/-- Totals of one operator that are kept make a total that is kept. -/
theorem sum_kept (h : (m.operators.map Prod.fst).Nodup) {part : OperatorCounters → Nat}
    (hpart : part {} = 0) {kind : OperatorKind} {c : OperatorCounters} {total : Nat}
    (htotal : total = min (m.operators.map fun o => part o.2).sum Counter.max64)
    (hc : part c = part (m.operator kind)) :
    total = min ((m.setOperator kind c).operators.map fun o => part o.2).sum Counter.max64 := by
  have hsum := sum_setOperator h hpart kind c
  omega

/-- **Recording an event keeps the totals balanced.** -/
theorem Balanced.record (h : m.Balanced) (e : MetricEvent) : (m.record e).Balanced := by
  obtain ⟨hnodup, hcalls, hblocks, hdocuments⟩ := h
  cases e with
  | operatorStart kind =>
    exact ⟨nodup_setOperator hnodup kind _, sum_grown hnodup rfl hcalls rfl,
      sum_kept hnodup rfl hblocks rfl, sum_kept hnodup rfl hdocuments rfl⟩
  | blocksScanned kind blocks documents =>
    exact ⟨nodup_setOperator hnodup kind _, sum_kept hnodup rfl hcalls rfl,
      sum_grown hnodup rfl hblocks rfl, sum_grown hnodup rfl hdocuments rfl⟩
  | groupResize capacity => exact ⟨hnodup, hcalls, hblocks, hdocuments⟩
  | mergeFinish partials exceptions => exact ⟨hnodup, hcalls, hblocks, hdocuments⟩

/-- **The totals of emitted events are the sums of their amounts.** -/
theorem totals_ofEvents (events : List MetricEvent) :
    (ofEvents events).operatorCalls = min (events.map starts).sum Counter.max64 ∧
    (ofEvents events).blocksScanned = min (events.map blocks).sum Counter.max64 ∧
    (ofEvents events).docsScanned = min (events.map documents).sum Counter.max64 := by
  have htotal {part : Metrics → Nat} {amount : MetricEvent → Nat} (hstart : part {} = 0)
      (hstep : ∀ m e, part m ≤ Counter.max64 →
        part (m.record e) = Counter.add (part m) (amount e)) :
      part (ofEvents events) = min (events.map amount).sum Counter.max64 := by
    have hsum := Counter.part_foldl hstep events (hstart ▸ Nat.zero_le _)
    rwa [hstart, Nat.zero_add] at hsum
  refine ⟨htotal rfl fun m e hm => ?_, htotal rfl fun m e hm => ?_, htotal rfl fun m e hm => ?_⟩
  · cases e with
    | operatorStart kind => rfl
    | _ => exact (Nat.min_eq_left hm).symm
  · cases e with
    | blocksScanned kind blocks documents => rfl
    | _ => exact (Nat.min_eq_left hm).symm
  · cases e with
    | blocksScanned kind blocks documents => rfl
    | _ => exact (Nat.min_eq_left hm).symm

/-- The totals of emitted events are those of all operators together. -/
theorem balanced_ofEvents (events : List MetricEvent) : (ofEvents events).Balanced :=
  foldl_preserves (fun _ e hm => hm.record e) ⟨List.nodup_nil, rfl, rfl, rfl⟩ events

end Metrics

/-! ## One segment -/

/-- The documents that a result counts as scanned. -/
def PartialResult.docsScanned (r : PartialResult) : Nat := r.stats.docsScanned

section Reports

variable {α β σ : Type} {documents : α → Nat} {t : Traced (Except QueryError α)}

/-- A run that fails before it starts, or emits a start and a report of the
same operator. The documents that it reports are those of what it
yields. -/
def Reports (documents : α → Nat) (t : Traced (Except QueryError α)) : Prop :=
  (t.events.filter isSpan = [] ∧ ∃ e, t.value = .error e) ∨
    ∃ kind blocks n, t.events.filter isSpan = span kind blocks n ∧
      ∀ a, t.value = .ok a → documents a = Counter.add 0 n

/-- What is made of a run's yield has the documents of the run. -/
theorem Reports.bind (h : Reports documents t) {documents' : β → Nat} {f : α → Except QueryError β}
    (hf : ∀ a b, f a = .ok b → documents' b = documents a) :
    Reports documents' (t.map fun outcome => outcome >>= f) := by
  rcases h with ⟨hevents, e, he⟩ | ⟨kind, blocks, n, hevents, hvalue⟩
  · refine .inl ⟨hevents, e, ?_⟩
    show (t.value >>= f) = _
    rw [he]
    rfl
  · refine .inr ⟨kind, blocks, n, hevents, fun b hb => ?_⟩
    obtain ⟨a, ha, hfa⟩ := Except.bind_eq_ok.1 hb
    exact (hf a b hfa).trans (hvalue a ha)

theorem Reports.map (h : Reports documents t) {documents' : β → Nat} {f : α → β}
    (hf : ∀ a, documents' (f a) = documents a) :
    Reports documents' (t.map fun outcome => outcome.map f) := by
  have hmap (outcome : Except QueryError α) :
      outcome.map f = outcome >>= fun a => .ok (f a) := by
    cases outcome <;> rfl
  simp only [hmap]
  refine h.bind fun a b hb => ?_
  obtain rfl := Except.ok.inj hb
  exact hf a

/-- A failure before the start. -/
theorem reports_error (e : QueryError) : Reports documents (.silent (.error e)) :=
  .inl ⟨rfl, e, rfl⟩

/-- A run that scans nothing reports nothing. -/
theorem reports_scanNothing {a : α} (kind : OperatorKind) (h : documents a = 0) :
    Reports documents (scanNothing kind (.ok a)) := by
  refine .inr ⟨kind, 0, 0, rfl, fun b hb => ?_⟩
  obtain rfl := Except.ok.inj hb
  exact h

/-- Steps that start and report nothing make a scan that does not. -/
theorem filter_scanPulls {step : σ → Block → Traced (Except QueryError (Visit σ))}
    (hstep : ∀ s b, (step s b).events.filter isSpan = [])
    (pulls : List (Except QueryError Block)) (s : σ) :
    (scanPulls step s pulls).events.filter isSpan = [] := by
  induction pulls generalizing s with
  | nil => rfl
  | cons pull rest ih =>
    cases pull with
    | error e => rfl
    | ok b =>
      rw [scanPulls]
      cases (step s b).value with
      | error e => exact hstep s b
      | ok visit =>
        simp only [ScanRun.after, List.filter_append, hstep s b, List.nil_append]
        by_cases hfinished : visit.finished = true
        · rw [if_pos hfinished]
          rfl
        · rw [if_neg hfinished]
          exact ih visit.state

/-- **A scan is reported once**, with the documents that its statistics
count, also when it fails midway. -/
theorem reports_scanWith (kind : OperatorKind) (source : Except QueryError BlockSource)
    {step : σ → Block → Traced (Except QueryError (Visit σ))}
    (hstep : ∀ s b, (step s b).events.filter isSpan = []) (s : σ) (totalDocs : Nat) :
    Reports (fun scanned => (scanned.stats totalDocs).docsScanned) (scanWith kind source step s) := by
  cases source with
  | error e => exact .inr ⟨kind, 0, 0, rfl, fun _ h => nomatch h⟩
  | ok source =>
    refine .inr ⟨kind, (scanPulls step s source.pulls).blocks,
      (scanPulls step s source.pulls).documents, ?_, fun scanned hscanned => ?_⟩
    · simp only [scanWith, List.cons_append, List.filter_cons, List.filter_append,
        filter_scanPulls hstep source.pulls s]
      rfl
    · obtain ⟨t, -, rfl⟩ := Except.map_eq_ok.1 hscanned
      rfl

/-- A scan whose steps emit nothing. -/
theorem reports_quietly (kind : OperatorKind) (source : Except QueryError BlockSource)
    (step : σ → Block → Except QueryError (Visit σ)) (s : σ) (totalDocs : Nat) :
    Reports (fun scanned => (scanned.stats totalDocs).docsScanned)
      (scanWith kind source (quietly step) s) :=
  reports_scanWith kind source (fun _ _ => rfl) s totalDocs

end Reports

/-! ### The operators -/

namespace Selection

theorem reports_runUnordered (segment : Segment) (select : List String) (options : Options) :
    Reports PartialResult.docsScanned (runUnordered segment select options) := by
  unfold runUnordered
  simp only
  cases schema segment (fetchedExpressions select [] options.limit segment.columnNames) with
  | error e => exact reports_error e
  | ok output =>
    by_cases hlimit : options.limit = 0
    · simp only [if_pos hlimit]
      exact reports_scanNothing .selection rfl
    · simp only [if_neg hlimit]
      exact (reports_quietly .selection _ _ [] segment.totalDocs).map fun _ => rfl

namespace Plan

variable (p : Plan) (order : RowOrder)

theorem reports_runOnePass :
    Reports (fun result => result.2.docsScanned) (p.runOnePass order) := by
  unfold runOnePass
  cases p.strategy with
  | preSorted => exact (reports_quietly _ _ _ _ p.segment.totalDocs).map fun _ => rfl
  | allOrdered => exact (reports_quietly _ _ _ _ p.segment.totalDocs).map fun _ => rfl
  | partiallyOrdered => exact (reports_quietly _ _ _ _ p.segment.totalDocs).map fun _ => rfl

/-- The second pass adds entries but no documents. -/
theorem reports_runTwoPasses :
    Reports (fun result => result.2.docsScanned) (p.runTwoPasses order) := by
  refine (reports_quietly _ _ _ _ p.segment.totalDocs).bind fun scanned result hresult => ?_
  obtain ⟨⟨heap, entries⟩, -, hpure⟩ := Except.bind_eq_ok.1 hresult
  obtain rfl := Except.ok.inj hpure
  rfl

theorem reports_run : Reports PartialResult.docsScanned p.run := by
  unfold run
  split
  · exact reports_error _
  · rename_i output order _
    have hnothing : Reports (fun result => result.2.docsScanned)
        (scanNothing .selectionOrderBy (.ok (OrderedRows.empty order 0,
          ExecutionStats.forSegment p.segment.totalDocs))) := reports_scanNothing _ rfl
    by_cases hkeep : p.keep = 0
    · simp only [if_pos hkeep]
      exact hnothing.map fun _ => rfl
    · simp only [if_neg hkeep]
      by_cases hpartial : p.strategy = .partiallyOrdered
      · simp only [if_pos hpartial]
        exact (p.reports_runTwoPasses order).map fun _ => rfl
      · simp only [if_neg hpartial]
        exact (p.reports_runOnePass order).map fun _ => rfl

end Plan

end Selection

namespace GroupBy

theorem filter_ensureAll (wanted : Nat) (holders : List GroupHolder) :
    (ensureAll wanted holders).events.filter isSpan = [] := by
  induction holders with
  | nil => rfl
  | cons h rest ih =>
    rw [ensureAll]
    cases h.ensure wanted with
    | error e => rfl
    | ok grown =>
      show ((if grown.resizes = h.resizes then [] else [MetricEvent.groupResize grown.capacity]) ++
        (ensureAll wanted rest).events).filter isSpan = []
      rw [List.filter_append, ih]
      by_cases hsame : grown.resizes = h.resizes
      · rw [if_pos hsame]
        rfl
      · rw [if_neg hsame]
        rfl

/-- Blocks of a grouping report resizes alone. -/
theorem filter_step (columns : List String) (keyCount : Nat) (multiValue : Bool)
    (functions : List AggregateFunction) (state : State) (block : Block) :
    (step columns keyCount multiValue functions state block).events.filter isSpan = [] := by
  unfold step
  split
  · rfl
  · exact filter_ensureAll _ _

theorem reports_run (segment : Segment) (groupBy : List String)
    (functions : List AggregateFunction) (options : Options) :
    Reports PartialResult.docsScanned (run segment groupBy functions options) := by
  unfold run
  split
  · exact reports_error _
  · rename_i output multiValue _
    refine (reports_scanWith .groupBy _ (filter_step _ _ _ _) _ segment.totalDocs).bind
      fun scanned r hr => ?_
    obtain ⟨table, -, hpure⟩ := Except.bind_eq_ok.1 hr
    obtain rfl := Except.ok.inj hpure
    rfl

end GroupBy

namespace Distinct

theorem reports_run (segment : Segment) (column : String) (order : Option Direction)
    (options : Options) : Reports PartialResult.docsScanned (run segment column order options) := by
  unfold run
  simp only
  split
  · exact reports_error _
  · exact (reports_quietly .distinct _ _ _ segment.totalDocs).map fun _ => rfl

end Distinct

namespace Query

variable {q : Query}

/-- **Every operator reports the documents that it counts.** -/
theorem reports_runOver (q : Query) (segment : Segment) :
    Reports PartialResult.docsScanned (q.runOver segment) := by
  unfold runOver
  cases q.kind with
  | selection =>
    simp only
    split
    · exact Selection.reports_runUnordered segment q.select q.options
    · exact (Selection.Plan.make segment q.select q.orderBy q.options).reports_run
  | aggregation =>
    exact (reports_quietly .aggregation _ _ _ segment.totalDocs).map fun _ => rfl
  | groupBy => exact GroupBy.reports_run segment q.groupBy q.functions q.options
  | distinct =>
    simp only
    cases q.distinctColumn with
    | error e => exact reports_error e
    | ok pair => exact Distinct.reports_run segment pair.1 pair.2 q.options

/-! ## Several segments -/

/-- The events of a run are those of its segments, in order, and the merge's
at the end. -/
theorem events_run (q : Query) (segments : List Segment) :
    (q.run segments).events = (segments.flatMap fun s => (q.runOver s).events) ++
      [.mergeFinish segments.length (q.run segments).value.exceptions.length] := by
  have hsequence : (Traced.sequence (segments.map q.runOver)).events =
      segments.flatMap fun s => (q.runOver s).events := by
    induction segments with
    | nil => rfl
    | cons s segments ih => exact congrArg ((q.runOver s).events ++ ·) ih
  have hlength : (Traced.sequence (segments.map q.runOver)).value.length = segments.length := by
    rw [Traced.value_sequence, List.length_map, List.length_map]
  show (Traced.sequence (segments.map q.runOver)).events ++
    [.mergeFinish (Traced.sequence (segments.map q.runOver)).value.length _] = _
  rw [hsequence, hlength]
  rfl

/-- What a segment that answers reports is what its statistics count. -/
theorem docsScanned_of_runOver {segment : Segment} {r : PartialResult}
    (h : (q.runOver segment).value = .ok r) :
    r.docsScanned = min ((q.runOver segment).events.map documents).sum Counter.max64 := by
  rcases q.reports_runOver segment with ⟨-, e, he⟩ | ⟨kind, blocks, n, hevents, hvalue⟩
  · exact nomatch he.symm.trans h
  · rw [hvalue r h, sum_documents, hevents]
    rfl

/-- The statistics of a run in which every segment answers count what all
segments report. -/
theorem docsScanned_run {segments : List Segment}
    (h : ∀ s ∈ segments, ∃ r, (q.runOver s).value = .ok r) :
    (q.run segments).value.docsScanned =
      min (segments.map fun s => ((q.runOver s).events.map documents).sum).sum Counter.max64 := by
  obtain ⟨results, hresults⟩ := exists_forall₂ h
  have hpart : ExecutionStats.docsScanned ∈ ExecutionStats.counters := List.mem_cons_self
  have hle : ∀ r ∈ results, r.stats.docsScanned ≤ Counter.max64 := by
    intro r hr
    obtain ⟨s, -, hs⟩ := exists_of_mem_right hresults hr
    exact (docsScanned_of_runOver hs).le.trans (Nat.min_le_right _ _)
  rw [value_run, forall₂_iff_map_eq.1 hresults, Combiner.combine_value, Combiner.answered_map_ok]
  refine (Combiner.counter_merged hpart hle).trans ?_
  -- a sum that stops at the greatest counter may have stopped in each part
  clear hle h
  induction hresults with
  | nil => rfl
  | @cons s r segments results hs _ ih =>
    have hr : r.stats.docsScanned = _ := docsScanned_of_runOver hs
    rw [List.map_cons, List.map_cons, List.sum_cons, List.sum_cons, hr]
    omega

/-- **The metrics of a run.** Each segment's run emits no start and no report
of an operator, or a start and then a report of the same one, and the run
emits the events of the segments in order. Each total is the sum of all
emitted amounts, and the total of those of the operators, up to the greatest
counter. Where no segment fails the documents that the metrics count as
scanned are those that the statistics of the result do. -/
theorem metrics_of_run (q : Query) (segments : List Segment) :
    (∀ s ∈ segments, (q.runOver s).events.filter isSpan = [] ∨ ∃ kind blocks documents,
      (q.runOver s).events.filter isSpan = span kind blocks documents) ∧
    (q.run segments).events = (segments.flatMap fun s => (q.runOver s).events) ++
      [.mergeFinish segments.length (q.run segments).value.exceptions.length] ∧
    (Metrics.ofEvents (q.run segments).events).operatorCalls =
      min ((q.run segments).events.map starts).sum Counter.max64 ∧
    (Metrics.ofEvents (q.run segments).events).blocksScanned =
      min ((q.run segments).events.map blocks).sum Counter.max64 ∧
    (Metrics.ofEvents (q.run segments).events).docsScanned =
      min ((q.run segments).events.map documents).sum Counter.max64 ∧
    (Metrics.ofEvents (q.run segments).events).Balanced ∧
    ((∀ s ∈ segments, ∃ r, (q.runOver s).value = .ok r) →
      (Metrics.ofEvents (q.run segments).events).docsScanned =
        (q.run segments).value.stats.docsScanned) := by
  obtain ⟨hcalls, hblocks, hdocuments⟩ := Metrics.totals_ofEvents (q.run segments).events
  refine ⟨fun s _ => ?_, q.events_run segments, hcalls, hblocks, hdocuments,
    Metrics.balanced_ofEvents _, fun hanswered => ?_⟩
  · rcases q.reports_runOver s with ⟨hnone, -⟩ | ⟨kind, blocks, n, hspan, -⟩
    · exact .inl hnone
    · exact .inr ⟨kind, blocks, n, hspan⟩
  · have hsum : ((q.run segments).events.map documents).sum =
        (segments.map fun s => ((q.runOver s).events.map documents).sum).sum := by
      rw [events_run, List.map_append, List.sum_append, List.map_flatMap, List.flatMap_def,
        List.sum_flatten, List.map_map]
      rfl
    rw [hdocuments, hsum]
    exact (docsScanned_run hanswered).symm

/-- A segment without columns, whose documents come in blocks of these
sizes. -/
def bareSegment (sizes : List Nat) : Segment where
  name := "bare"
  totalDocs := sizes.sum
  columnNames := []
  metadata := fun name => .error (.unknownColumn name "bare")
  isSortedOn := fun _ => false
  scan := fun _ _ => .ok ⟨sizes.map fun size => .ok ⟨List.range size, []⟩, 0, 0⟩
  scanDocs := fun _ _ _ => .ok ⟨[], 0, 0⟩

/-- A count of documents. -/
def counting : Query where
  kind := .aggregation
  functions := [.count none]

/-- Six documents are counted, those of two segments. -/
theorem metrics_of_run_counting :
    (∀ s ∈ [bareSegment [2, 1], bareSegment [3]], ∃ r, (counting.runOver s).value = .ok r) ∧
    (Metrics.ofEvents
      (counting.run [bareSegment [2, 1], bareSegment [3]]).events).docsScanned = 6 := by
  have hanswered : ∀ s ∈ [bareSegment [2, 1], bareSegment [3]],
      ∃ r, (counting.runOver s).value = .ok r := by
    intro s hs
    rcases List.mem_pair.1 hs with rfl | rfl <;> exact ⟨_, rfl⟩
  obtain ⟨-, -, -, -, -, -, hagree⟩ :=
    metrics_of_run counting [bareSegment [2, 1], bareSegment [3]]
  exact ⟨hanswered, (hagree hanswered).trans rfl⟩

end Query

end SegmentQuery
