import Mathlib.Data.List.Flatten
import SegmentQuery.Proofs.Broker.Groupings
import SegmentQuery.Proofs.Operator.Aggregating
import SegmentQuery.Proofs.Result.Failures
/-!
# Aggregations over several segments

Every segment yields a row whose cells have tallied its matching
documents, and merging two rows tallies the documents of both: the row
that a run ends with holds the totals of all matching documents, in
whatever segments and blocks they are. Sentinels and infinities of empty
segments, of blocks without a value and of nulls do not show beside a
value.
-/


namespace SegmentQuery

open Document

variable {range : String → Option (Int × Int)} {nullHandling : Bool}
variable {documents more : List Document} {c : Combiner} {left right row : Row}

/-- A row has tallied some documents, each cell for its function. -/
def TalliesRow (range : String → Option (Int × Int)) (nullHandling : Bool)
    (functions : List AggregateFunction) (documents : List Document) (row : Row) : Prop :=
  List.Forall₂ (Tallies range nullHandling documents) functions row

namespace Combiner

/-! ## Rows -/

/-- Slots that merge tally the documents of both rows. -/
theorem tallies_of_mergeSlots {functions : List AggregateFunction}
    (hleft : TalliesRow range nullHandling functions documents left)
    (hright : TalliesRow range nullHandling functions more right)
    (h : (mergeSlots functions left right).toExcept = .ok row) :
    TalliesRow range nullHandling functions (documents ++ more) row := by
  induction hleft generalizing right row with
  | nil =>
    obtain rfl := List.forall₂_nil_left_iff.1 hright
    obtain rfl := Except.ok.inj h
    exact .nil
  | @cons f l functions left hl _ ih =>
    obtain ⟨r, rest, hr, hrest, rfl⟩ := List.forall₂_cons_left_iff.1 hright
    rw [mergeSlots] at h
    cases hmerge : f.merge l r with
    | error e =>
      rw [hmerge] at h
      have herror : Except.error e = Except.ok row := h
      cases herror
    | ok merged =>
      rw [hmerge, Progress.toExcept_map] at h
      obtain ⟨tail, htail, rfl⟩ := Except.map_eq_ok.1 h
      exact .cons (hl.of_merge hr hmerge) (ih hrest htail)

/-- Slots merge while the sums fit. -/
theorem exists_mergeSlots {functions : List AggregateFunction}
    (hleft : TalliesRow range nullHandling functions documents left)
    (hright : TalliesRow range nullHandling functions more right)
    (htotals : ∀ f ∈ functions, f.HasTotal range)
    (hfits : ∀ f ∈ functions, f.SumFits nullHandling (documents ++ more)) :
    ∃ row, (mergeSlots functions left right).toExcept = .ok row := by
  induction hleft generalizing right with
  | nil => exact ⟨[], by cases hright; rfl⟩
  | @cons f l functions left hl _ ih =>
    obtain ⟨r, rest, hr, hrest, rfl⟩ := List.forall₂_cons_left_iff.1 hright
    obtain ⟨htotal, htotals⟩ := List.forall_mem_cons.1 htotals
    obtain ⟨hfit, hfits⟩ := List.forall_mem_cons.1 hfits
    obtain ⟨merged, hmerge⟩ := hl.exists_merge hr htotal hfit
    obtain ⟨tail, htail⟩ := ih hrest htotals hfits
    refine ⟨merged :: tail, ?_⟩
    rw [mergeSlots, hmerge, Progress.toExcept_map, htail]
    rfl

/-- Rows with a cell for each function merge slot by slot. -/
theorem mergeAggregates_eq_mergeSlots
    (hleft : TalliesRow range nullHandling c.functions documents left)
    (hright : TalliesRow range nullHandling c.functions more right) :
    c.mergeAggregates left right = mergeSlots c.functions left right := by
  rw [mergeAggregates, if_pos ⟨hleft.length_eq.symm, hright.length_eq.symm⟩]

variable {parts : List (List Document)} {rows : List Row}

/-- **Rows that merge one after the other** tally the documents of
all. -/
theorem tallies_of_foldlM
    (hrows : List.Forall₂ (TalliesRow range nullHandling c.functions) parts rows)
    (hleft : TalliesRow range nullHandling c.functions documents left)
    (h : rows.foldlM (fun a b => (c.mergeAggregates a b).toExcept) left = .ok row) :
    TalliesRow range nullHandling c.functions (documents ++ parts.flatten) row := by
  induction hrows generalizing documents left with
  | nil =>
    obtain rfl := Except.ok.inj h
    rwa [List.flatten_nil, List.append_nil]
  | @cons part other parts rows hother _ ih =>
    obtain ⟨merged, hmerge, hrest⟩ := Except.bind_eq_ok.1 h
    dsimp only at hmerge
    rw [mergeAggregates_eq_mergeSlots hleft hother] at hmerge
    rw [List.flatten_cons, ← List.append_assoc]
    exact ih (tallies_of_mergeSlots hleft hother hmerge) hrest

/-- **Rows merge one after the other** while the sums on the way fit. -/
theorem exists_foldlM_mergeAggregates
    (hrows : List.Forall₂ (TalliesRow range nullHandling c.functions) parts rows)
    (hleft : TalliesRow range nullHandling c.functions documents left)
    (htotals : ∀ f ∈ c.functions, f.HasTotal range)
    (hfits : ∀ n, ∀ f ∈ c.functions, f.SumFits nullHandling (documents ++ (parts.take n).flatten)) :
    ∃ row, rows.foldlM (fun a b => (c.mergeAggregates a b).toExcept) left = .ok row := by
  induction hrows generalizing documents left with
  | nil => exact ⟨left, rfl⟩
  | @cons part other parts rows hother _ ih =>
    obtain ⟨merged, hmerge⟩ := exists_mergeSlots hleft hother htotals fun f hf => by
      simpa using hfits 1 f hf
    have htallies := tallies_of_mergeSlots hleft hother hmerge
    obtain ⟨row, hrow⟩ := ih htallies fun n f hf => by
      simpa [List.append_assoc] using hfits (n + 1) f hf
    rw [← mergeAggregates_eq_mergeSlots hleft hother] at hmerge
    refine ⟨row, ?_⟩
    rw [List.foldlM_cons, hmerge]
    exact hrow

end Combiner

namespace Query

variable {q : Query} {s : MemorySegment} {segments : List MemorySegment}

/-! ## Segments -/

/-- What one segment yields has tallied its matching documents. -/
theorem talliesRow_of_runOver (hkind : q.kind = .aggregation) {r : PartialResult}
    (h : (q.runOver s.segment).value = .ok r) : ∃ row, r.rows = .aggregation row ∧
      TalliesRow s.integerRange? q.options.nullHandling q.functions (Document.matching [s]) row := by
  rw [runOver, hkind] at h
  obtain ⟨row, hrows, htallies⟩ := Aggregation.tallies_of_run h
  have hdocuments : Document.matching [s] = s.matching.map (Document.mk s) := List.append_nil _
  exact ⟨row, hrows, hdocuments ▸ htallies⟩

/-- The results of segments of one table, and the rows that they hold. -/
theorem exists_rows (hkind : q.kind = .aggregation)
    (hrange : ∀ s ∈ segments, s.integerRange? = range) {results : List PartialResult}
    (hresults : List.Forall₂ (fun s r => (q.runOver (MemorySegment.segment s)).value = .ok r)
      segments results) :
    ∃ rows, List.Forall₂ (fun (r : PartialResult) row => r.rows = .aggregation row) results rows ∧
      List.Forall₂ (TalliesRow range q.options.nullHandling q.functions)
        (segments.map fun s => Document.matching [s]) rows := by
  have hrows : ∀ s ∈ segments, ∀ r, (q.runOver s.segment).value = .ok r →
      ∃ row, r.rows = .aggregation row ∧ TalliesRow range q.options.nullHandling q.functions
        (Document.matching [s]) row := by
    intro s hs r hr
    rw [← hrange s hs]
    exact talliesRow_of_runOver hkind hr
  simp only [List.forall₂_map_left_iff]
  refine exists_forall₂_between ?_
  rw [List.forall₂_iff_get] at hresults ⊢
  refine ⟨hresults.1.symm, fun i hi hi' => ?_⟩
  exact hrows _ (List.get_mem _ _) _ (hresults.2 i hi' hi)

/-- Segments over which every function of a query has a total: the columns
are known, least, greatest and exact sums are of integers, and no sum of
the first segments has more than 96 bits. -/
structure Totalling (q : Query) (segments : List MemorySegment) : Prop where
  known : ∀ s ∈ segments, ∀ f ∈ q.functions, ∀ name, f.column? = some name →
    ∃ c, s.find name = .ok c
  total : ∀ s ∈ segments, ∀ f ∈ q.functions, f.HasTotal s.integerRange?
  fits : ∀ n, ∀ f ∈ q.functions,
    f.SumFits q.options.nullHandling (Document.matching (segments.take n))

/-- The documents of segments, one segment after the other. -/
theorem flatten_map_matching_singleton (segments : List MemorySegment) :
    (segments.map fun s => Document.matching [s]).flatten = Document.matching segments := by
  simp [Document.matching, List.flatMap_def]

/-- **Where every function has a total a run leaves no exception.** -/
theorem exceptions_run_of_totalling (hkind : q.kind = .aggregation)
    (hrange : ∀ s ∈ segments, s.integerRange? = range) (h : q.Totalling segments) :
    (q.run (segments.map MemorySegment.segment)).value.exceptions = [] := by
  cases segments with
  | nil => rfl
  | cons s segments =>
    have hone : ∀ u ∈ s :: segments, ∃ r, (q.runOver (MemorySegment.segment u)).value = .ok r ∧
        r.exceptions = [] := by
      intro u hu
      rw [runOver, hkind]
      exact Aggregation.exists_run (h.known u hu) (h.total u hu)
    obtain ⟨results, hresults⟩ := exists_forall₂ hone
    have houtcomes := hresults.imp fun _ _ hr => hr.1
    obtain ⟨rows, hpayloads, hrows⟩ := exists_rows hkind hrange houtcomes
    obtain ⟨first, rest, ⟨-, hfirst⟩, hrest, rfl⟩ := List.forall₂_cons_left_iff.1 hresults
    obtain ⟨row, rows, hrow, hlater, rfl⟩ := List.forall₂_cons_left_iff.1 hpayloads
    rw [List.map_cons, List.forall₂_cons] at hrows
    have htotals : ∀ f ∈ q.combiner.functions, f.HasTotal range := by
      intro f hf
      rw [← hrange s List.mem_cons_self]
      exact h.total s List.mem_cons_self f hf
    obtain ⟨merged, hmerged⟩ := Combiner.exists_foldlM_mergeAggregates (c := q.combiner) hrows.2
      hrows.1 htotals fun n f hf => by
        have hfits := h.fits (n + 1) f hf
        rw [List.take_succ_cons, ← flatten_map_matching_singleton, List.map_cons, List.flatten_cons,
          List.map_take] at hfits
        exact hfits
    obtain ⟨r, hr, -, -⟩ := Combiner.exists_foldlM_mergeResult (fun _ => ResultRows.noConfusion)
      Combiner.mergeRows_aggregation hlater hrow hmerged
    rw [value_run_of_outcomes houtcomes hr]
    refine Combiner.exceptions_of_foldlM_mergeResult hfirst (fun other hother => ?_) hr
    obtain ⟨u, -, hu⟩ := exists_of_mem_right hrest hother
    exact hu.2

/-- **A run without an exception** has tallied all matching
documents. -/
theorem tallies_of_run (hkind : q.kind = .aggregation) (hne : segments ≠ [])
    (hrange : ∀ s ∈ segments, s.integerRange? = range)
    (h : (q.run (segments.map MemorySegment.segment)).value.exceptions = []) :
    ∃ row, (q.run (segments.map MemorySegment.segment)).value.rows = .aggregation row ∧
      TalliesRow range q.options.nullHandling q.functions (Document.matching segments) row := by
  obtain hnil | ⟨first, rest, r, houtcomes, hfold, hvalue⟩ := of_run h
  · exact absurd hnil hne
  · obtain ⟨rows, hpayloads, hrows⟩ := exists_rows hkind hrange houtcomes
    obtain ⟨s, segments, -, -, rfl⟩ := List.forall₂_cons_right_iff.1 houtcomes
    obtain ⟨row, rows, hrow, hlater, rfl⟩ := List.forall₂_cons_left_iff.1 hpayloads
    have hmap := Combiner.map_foldlM_mergeResult (c := q.combiner)
      (fun _ => ResultRows.noConfusion) Combiner.mergeRows_aggregation hlater hrow
    rw [hfold] at hmap
    obtain ⟨merged, hmerged, hboth⟩ := Except.map_eq_ok.1 hmap.symm
    have hresult : ResultRows.aggregation merged = r.rows := (Prod.mk.inj hboth).2
    rw [List.map_cons, List.forall₂_cons] at hrows
    have hall := Combiner.tallies_of_foldlM (c := q.combiner) hrows.2 hrows.1 hmerged
    rw [← List.flatten_cons, ← List.map_cons (f := fun s => Document.matching [s]),
      flatten_map_matching_singleton] at hall
    exact ⟨merged, hvalue ▸ hresult.symm, hall⟩

/-- The integers of documents are within the range of their column. -/
theorem mem_range_of_mem_values (hrange : ∀ s ∈ segments, s.integerRange? = range) {column : String}
    {low high : Int} (hcolumn : range column = some (low, high)) {n : Int}
    (hn : n ∈ values nullHandling column (Document.matching segments)) : low ≤ n ∧ n ≤ high := by
  obtain ⟨d, hd, hinteger⟩ := List.mem_filterMap.1 hn
  obtain ⟨s, hs, hmem⟩ := List.mem_flatMap.1 hd
  rw [← hrange s hs] at hcolumn
  cases hfind : s.find column with
  | error e =>
    rw [MemorySegment.integerRange?, ColumnSegment.metadata, hfind] at hcolumn
    have hnone : none = some (low, high) := hcolumn
    cases hnone
  | ok c =>
    have hholds : (c.column.delivered nullHandling s.matching).HoldsIntegers nullHandling column
        (s.matching.map (Document.mk s)) (low, high) :=
      MemorySegment.holdsIntegers_delivered hfind hcolumn fun _ hd => hd
    exact hholds.mem_range (List.mem_filterMap.2 ⟨d, hmem, hinteger⟩)

/-- **Aggregates equal their definition over all segments.** A query that
aggregates segments of one table leaves no exception where every function
has a total, and where it leaves none each cell of its row is the total of
all matching documents, however they are spread over segments and
blocks. -/
theorem totals_of_run (hkind : q.kind = .aggregation) (hne : segments ≠ [])
    (halike : segments.Pairwise MemorySegment.SameColumns) :
    let result := (q.run (segments.map MemorySegment.segment)).value
    (q.Totalling segments → result.exceptions = []) ∧
    (result.exceptions = [] → ∃ row, result.rows = .aggregation row ∧
      ∀ s ∈ segments, List.Forall₂
        (Totals s.integerRange? q.options.nullHandling (Document.matching segments))
        q.functions row) := by
  intro result
  obtain ⟨first, hfirst⟩ := List.exists_mem_of_ne_nil segments hne
  have hrange : ∀ s ∈ segments, s.integerRange? = first.integerRange? := fun s hs =>
    (MemorySegment.SameColumns.of_pairwise halike hs hfirst).integerRange?_eq
  refine ⟨exceptions_run_of_totalling hkind hrange, fun hclean => ?_⟩
  obtain ⟨row, hrow, htallies⟩ := tallies_of_run hkind hne hrange hclean
  refine ⟨row, hrow, fun s hs => ?_⟩
  rw [hrange s hs]
  exact htallies.imp fun _ _ h => h.totals fun _ _ _ hcolumn _ hn =>
    mem_range_of_mem_values hrange hcolumn hn

/-- A segment of one integer that is null. -/
def oneNull : MemorySegment where
  name := "null"
  numDocs := 1
  columns := [⟨"k", .dimension, ⟨.single .int [7], some (DocSet.ofList [0])⟩⟩]
  blockSize := 1
  sortedColumns := []
  filter := none
  numDocs_le := Nat.le_add_left 1 4294967295
  length_columns := List.forall_mem_singleton.2 rfl
  names_nodup := List.nodup_singleton "k"
  blockSize_pos := Nat.one_pos

/-- A null, a filter and an empty segment stand in nothing's way. -/
theorem totals_of_run_three :
    let q : Query :=
      { kind := .aggregation
        functions := [.count none, .count (some "k"), .min "k", .max "k",
          .sumPrecision "k" 0 none true]
        options := { nullHandling := true } }
    let segments := [oneNull, (Broker.integers [5, 6] (by decide)).withFilter (DocSet.ofList [1]),
      Broker.integers [] (by decide)]
    segments ≠ [] ∧ segments.Pairwise MemorySegment.SameColumns ∧ q.Totalling segments ∧
      (q.run (segments.map MemorySegment.segment)).value.exceptions = [] ∧
      ∃ row, (q.run (segments.map MemorySegment.segment)).value.rows = .aggregation row ∧
        ∀ s ∈ segments, List.Forall₂ (Totals s.integerRange? true (Document.matching segments))
          q.functions row := by
  intro q segments
  have hne : segments ≠ [] := List.cons_ne_nil _ _
  have hintegers (values : List Int32) (h : values.length ≤ Number.bound32) :
      oneNull.SameColumns (Broker.integers values h) := by
    intro name
    by_cases hname : name = "k"
    · rw [hname]
      rfl
    · have hother : ("k" == name) = false := by simpa using fun heq => hname heq.symm
      simp [ColumnSegment.metadata, ColumnSegment.find, oneNull, Broker.integers, hother,
        Except.map, Except.toOption]
  have hsame : ∀ s ∈ segments, oneNull.SameColumns s := by
    simp only [segments, List.forall_mem_cons]
    exact ⟨.refl _, hintegers [5, 6] (by decide), hintegers [] (by decide), fun _ h => absurd h List.not_mem_nil⟩
  have halike : segments.Pairwise MemorySegment.SameColumns :=
    List.pairwise_of_forall_mem_list fun a ha b hb name =>
      (hsame a ha name).symm.trans (hsame b hb name)
  have hrange : ∀ s ∈ segments, s.integerRange? "k" = StoredType.int.integerRange? := fun s hs =>
    congrFun (hsame s hs).integerRange?_eq.symm "k"
  have htotalling : q.Totalling segments := by
    refine ⟨fun s hs f hf name hname => ?_, fun s hs f hf => ?_, fun n f hf => ?_⟩
    · -- what has a range is a column
      have hk : name = "k" := by
        simp only [q, List.mem_cons, List.not_mem_nil, or_false] at hf
        rcases hf with rfl | rfl | rfl | rfl | rfl <;> cases hname <;> rfl
      have hcolumn := hrange s hs
      rw [MemorySegment.integerRange?, ColumnSegment.metadata] at hcolumn
      rw [hk]
      cases hfind : s.find "k" with
      | error e =>
        rw [hfind] at hcolumn
        have hnone : none = StoredType.int.integerRange? := hcolumn
        cases hnone
      | ok c => exact ⟨c, rfl⟩
    · have hsome : (s.integerRange? "k").isSome := by
        rw [hrange s hs]
        rfl
      simp only [q, List.mem_cons, List.not_mem_nil, or_false] at hf
      rcases hf with rfl | rfl | rfl | rfl | rfl
      · trivial
      · trivial
      · exact hsome
      · exact hsome
      · exact ⟨rfl, hsome⟩
    · simp only [q, List.mem_cons, List.not_mem_nil, or_false] at hf
      rcases hf with rfl | rfl | rfl | rfl | rfl
      · trivial
      · trivial
      · trivial
      · trivial
      · refine Document.natAbs_sum_values_lt (List.Sublist.refl _) ?_
        have hall : (Document.matching segments).length ≤ Number.bound32 := by decide +kernel
        refine Nat.le_trans (List.Sublist.length_le ?_) hall
        exact (List.take_sublist n segments).flatMap _
  obtain ⟨hclean, htotals⟩ := totals_of_run (q := q) rfl hne halike
  exact ⟨hne, halike, htotalling, hclean htotalling, htotals (hclean htotalling)⟩

end Query

end SegmentQuery
