import SegmentQuery.Operator.Aggregation
import SegmentQuery.Proofs.Aggregate.Folding
import SegmentQuery.Proofs.Operator.Tabulating
/-!
# An aggregation tallies its documents

Block by block every holder takes in the documents of the block, and what
is extracted at the end has tallied the matching documents of the
segment. Functions that have a total are never refused: a segment has too
few documents for an exact sum of integers to overflow.
-/


namespace SegmentQuery

open Document

variable {nullHandling : Bool} {s : MemorySegment} {functions : List AggregateFunction}

/-! ## Columns of integers -/

namespace MemorySegment

/-- The values of documents that all exist, each by its number. -/
theorem filterMap_getElem?_eq_map {α : Type} (fallback : α) {vs : List α} {documents : List Nat}
    (h : ∀ d ∈ documents, d < vs.length) :
    documents.filterMap (vs[·]?) =
      (documents.map (Document.mk s)).map fun d => vs[d.number]?.getD fallback := by
  rw [List.map_map, ← List.filterMap_eq_map]
  refine List.filterMap_congr fun d hd => ?_
  simp [List.getElem?_eq_getElem (h d hd)]

/-- **A block of an integer column holds the integers of its
documents.** -/
theorem holdsIntegers_delivered {name : String} {c : MemoryColumn} (hfind : s.find name = .ok c)
    {range : Int × Int} (hrange : s.integerRange? name = some range) {documents : List Nat}
    (hdocuments : ∀ d ∈ documents, d ∈ s.matching) :
    (c.column.delivered nullHandling documents).HoldsIntegers nullHandling name
      (documents.map (Document.mk s)) range := by
  have hlt : ∀ d ∈ documents, d < c.column.length := by
    intro d hd
    rw [s.length_columns c (find_name hfind).1]
    exact lt_of_mem_matching (hdocuments d hd)
  have hrange : (if c.column.isSingleValue then c.column.type.integerRange? else none) =
      some range := by
    rw [integerRange?, ColumnSegment.metadata, hfind] at hrange
    exact hrange
  have hdelivered : c.column.delivered nullHandling documents =
      ⟨c.column.values.select documents, (c.column.delivered nullHandling documents).nulls⟩ := by
    cases nullHandling <;> rfl
  have hnull (d : Nat) : (Document.mk s d).isNull nullHandling name =
      (nullHandling && c.column.isNull d) := by
    rw [Document.isNull, hfind]
  have hinteger (d : Nat) : (Document.mk s d).integer? nullHandling name =
      (c.column.cellOf nullHandling d).integer? := by
    rw [Document.integer?, cell, hfind]
  rw [hdelivered]
  generalize (c.column.delivered nullHandling documents).nulls = nulls
  obtain ⟨name', role, values, recorded⟩ := c
  cases values with
  | multi t vs =>
    have hnone : none = some range := hrange
    cases hnone
  | single t vs =>
    cases t with
    | int =>
      obtain rfl := Option.some.inj hrange
      have hvalues := filterMap_getElem?_eq_map (s := s) 0 hlt
      rw [ColumnValues.select, hvalues]
      refine .int _ fun d hd => ?_
      obtain ⟨number, hnumber, rfl⟩ := List.mem_map.1 hd
      rw [hnull, hinteger, Column.cellOf]
      dsimp only
      split
      · rfl
      · rw [List.getElem?_eq_getElem (hlt number hnumber)]
        rfl
    | long =>
      obtain rfl := Option.some.inj hrange
      have hvalues := filterMap_getElem?_eq_map (s := s) 0 hlt
      rw [ColumnValues.select, hvalues]
      refine .long _ fun d hd => ?_
      obtain ⟨number, hnumber, rfl⟩ := List.mem_map.1 hd
      rw [hnull, hinteger, Column.cellOf]
      dsimp only
      split
      · rfl
      · rw [List.getElem?_eq_getElem (hlt number hnumber)]
        rfl
    | _ =>
      have hnone : none = some range := hrange
      cases hnone

end MemorySegment

namespace Aggregation

variable {columns : List MemoryColumn} {seen batch : List Nat} {holders : List Holder}

/-- What a function takes in from a block of fetched columns. -/
theorem input_takes (hcolumns : (fetchedColumns [] functions).mapM s.find = .ok columns)
    (hbatch : ∀ d ∈ batch, d ∈ s.matching) (hlen : batch.length ≤ Number.bound32)
    {f : AggregateFunction} (hf : f ∈ functions) :
    ∃ column, input (MemorySegment.block columns nullHandling batch)
        (inputIndex (fetchedColumns [] functions) f) = .ok column ∧
      f.Takes s.integerRange? nullHandling (batch.map (Document.mk s)) column := by
  obtain ⟨column, hinput, hcolumn⟩ := input_delivered hcolumns nullHandling batch hf
  refine ⟨column, hinput, ?_⟩
  unfold AggregateFunction.Takes
  cases hname : f.column? with
  | none =>
    rw [hname] at hcolumn
    exact hcolumn
  | some name =>
    rw [hname] at hcolumn
    obtain ⟨c, rfl, hfind⟩ := hcolumn
    exact ⟨_, rfl, MemorySegment.delivers_delivered hfind hbatch hlen,
      fun r hr => MemorySegment.holdsIntegers_delivered hfind hr hbatch⟩

/-- The holders have accumulated some documents of a segment, each for its
function. -/
def Accumulated (s : MemorySegment) (nullHandling : Bool) (functions : List AggregateFunction)
    (seen : List Nat) (holders : List Holder) : Prop :=
  List.Forall₂ (Accumulates s.integerRange? nullHandling (seen.map (Document.mk s))) functions
    holders

/-- New holders have accumulated nothing. -/
theorem accumulated_new :
    Accumulated s nullHandling functions [] (functions.map AggregateFunction.holder) := by
  rw [Accumulated, List.forall₂_map_right_iff]
  exact List.forall₂_same.2 fun _ _ => accumulates_holder

/-- **One step** that goes through takes the block's documents in. -/
theorem Accumulated.of_step (hseen : Accumulated s nullHandling functions seen holders)
    (hcolumns : (fetchedColumns [] functions).mapM s.find = .ok columns) (hne : batch ≠ [])
    (hbatch : ∀ d ∈ batch, d ∈ s.matching) (hlen : batch.length ≤ Number.bound32)
    {visit : Visit (List Holder)}
    (hvisit : step (fetchedColumns [] functions) functions holders
      (MemorySegment.block columns nullHandling batch) = .ok visit) :
    visit.finished = false ∧
      Accumulated s nullHandling functions (seen ++ batch) visit.state := by
  obtain ⟨after, hafter, hpure⟩ := Except.bind_eq_ok.1 hvisit
  obtain rfl := Except.ok.inj hpure
  rw [Accumulated, List.map_append]
  refine ⟨rfl, Except.forall₂_of_mapM_zip hseen (fun f hf h h' haccumulates hfold => ?_) hafter⟩
  obtain ⟨column, hinput, htakes⟩ := input_takes (s := s) hcolumns hbatch hlen hf
  obtain ⟨column', hinput', hfolded⟩ := Except.bind_eq_ok.1 hfold
  obtain rfl := Except.ok.inj (hinput.symm.trans hinput')
  have hsize : (MemorySegment.block columns nullHandling batch).size =
      (batch.map (Document.mk s)).length := (List.length_map _).symm
  rw [hsize] at hfolded
  exact haccumulates.of_aggregate htakes (by simpa using hne) (by simpa using hlen) hfolded

/-- **One step goes through** for functions that have a total. -/
theorem Accumulated.exists_step (hseen : Accumulated s nullHandling functions seen holders)
    (hcolumns : (fetchedColumns [] functions).mapM s.find = .ok columns)
    (htotals : ∀ f ∈ functions, f.HasTotal s.integerRange?)
    (hbatch : ∀ d ∈ batch, d ∈ s.matching)
    (hlen : (seen ++ batch).length ≤ Number.bound32) :
    ∃ visit, step (fetchedColumns [] functions) functions holders
      (MemorySegment.block columns nullHandling batch) = .ok visit := by
  have hbatchLen : batch.length ≤ Number.bound32 := by
    rw [List.length_append] at hlen
    omega
  have hall : (seen.map (Document.mk s) ++ batch.map (Document.mk s)).length ≤ Number.bound32 := by
    rwa [← List.map_append, List.length_map]
  refine (Except.exists_mapM_zip_ok (S := fun _ _ => True) hseen fun f hf h haccumulates => ?_).elim
    fun after hafter => ⟨_, Except.bind_eq_ok.2 ⟨after, hafter.1, rfl⟩⟩
  obtain ⟨column, hinput, htakes⟩ := input_takes (s := s) hcolumns hbatch hbatchLen hf
  obtain ⟨after, hafter⟩ := haccumulates.exists_aggregate htakes (htotals f hf) hall
  rw [List.length_map] at hafter
  exact ⟨after, Except.bind_eq_ok.2 ⟨column, hinput, hafter⟩, trivial⟩

/-! ## The scan -/

/-- **Holders that a scan filled** have accumulated the matching
documents. -/
theorem accumulated_of_scan {source : BlockSource}
    (hscan : s.scan (fetchedColumns [] functions) nullHandling = .ok source)
    (h : (scanPulls (quietly (step (fetchedColumns [] functions) functions))
      (functions.map AggregateFunction.holder) source.pulls).outcome = .ok holders) :
    Accumulated s nullHandling functions s.matching holders := by
  obtain ⟨columns, -, hcolumns, -⟩ := MemorySegment.of_scan hscan
  obtain ⟨source', batches, hscan', hpulls, hbatches, hne⟩ :=
    MemorySegment.exists_scan hcolumns nullHandling
  obtain rfl := Except.ok.inj (hscan.symm.trans hscan')
  rw [hpulls] at h
  have hall := scanPulls_documents (Q := Accumulated s nullHandling functions)
    (fun seen holders hseen b hb visit hvisit => by
      obtain ⟨batch, hbatch, rfl⟩ := List.mem_map.1 hb
      obtain ⟨hmem, hlen⟩ := MemorySegment.of_mem_batches hbatches hbatch
      exact hseen.of_step hcolumns (hne batch hbatch) hmem hlen hvisit) accumulated_new h
  rwa [List.nil_append, MemorySegment.flatMap_documents, hbatches] at hall

/-- **A scan fills holders** of functions that have a total. -/
theorem exists_scan_holders (hcolumns : (fetchedColumns [] functions).mapM s.find = .ok columns)
    (htotals : ∀ f ∈ functions, f.HasTotal s.integerRange?) (nullHandling : Bool) :
    ∃ source holders, s.scan (fetchedColumns [] functions) nullHandling = .ok source ∧
      (scanPulls (quietly (step (fetchedColumns [] functions) functions))
        (functions.map AggregateFunction.holder) source.pulls).outcome = .ok holders := by
  obtain ⟨source, batches, hscan, hpulls, hbatches, hne⟩ :=
    MemorySegment.exists_scan hcolumns nullHandling
  have hstep : ∀ front b back,
      batches.map (MemorySegment.block columns nullHandling) = front ++ b :: back → ∀ holders,
      Accumulated s nullHandling functions ([] ++ front.flatMap Block.documents) holders →
      ∃ visit, (quietly (step (fetchedColumns [] functions) functions) holders b).value = .ok visit ∧
        visit.finished = false ∧ Accumulated s nullHandling functions
          ([] ++ front.flatMap Block.documents ++ b.documents) visit.state := by
    intro front b back hblocks holders hseen
    obtain ⟨before, rest, rfl, rfl, hrest⟩ := List.map_eq_append_iff.1 hblocks
    obtain ⟨batch, after, rfl, rfl, -⟩ := List.map_eq_cons_iff.1 hrest
    rw [List.nil_append, MemorySegment.flatMap_documents] at hseen ⊢
    have hbatch : batch ∈ before ++ batch :: after := by simp
    obtain ⟨hmem, hlen⟩ := MemorySegment.of_mem_batches hbatches hbatch
    -- the documents seen so far are the first ones of the segment
    have hfirst : (before.flatten ++ batch).length ≤ Number.bound32 := by
      have hle := s.length_matching_le
      rw [← hbatches, List.flatten_append, List.flatten_cons, ← List.append_assoc,
        List.length_append] at hle
      omega
    obtain ⟨visit, hvisit⟩ := hseen.exists_step hcolumns htotals hmem hfirst
    exact ⟨visit, hvisit, hseen.of_step hcolumns (hne batch hbatch) hmem hlen hvisit⟩
  obtain ⟨holders, hholders, -⟩ := scanPulls_reaches hstep accumulated_new
  rw [← hpulls] at hholders
  exact ⟨source, holders, hscan, hholders⟩

variable {options : Options} {r : PartialResult}

/-- **What a segment yields** has tallied its matching documents. -/
theorem tallies_of_run (h : (run s.segment functions options).value = .ok r) :
    ∃ row, r.rows = .aggregation row ∧
      List.Forall₂ (Tallies s.integerRange? options.nullHandling (s.matching.map (Document.mk s)))
        functions row := by
  obtain ⟨scanned, hscanned, rfl⟩ := Except.map_eq_ok.1 h
  refine ⟨_, rfl, ?_⟩
  change (scanWith .aggregation (s.scan (fetchedColumns [] functions) options.nullHandling) _ _).value
    = _ at hscanned
  cases hscan : s.scan (fetchedColumns [] functions) options.nullHandling with
  | error e =>
    rw [hscan] at hscanned
    exact nomatch hscanned
  | ok source =>
    rw [hscan] at hscanned
    obtain ⟨holders, hholders, rfl⟩ := Except.map_eq_ok.1 hscanned
    have hall := accumulated_of_scan hscan hholders
    -- each holder's value is extracted
    refine List.forall₂_iff_get.2 ⟨by simp [hall.length_eq], fun i hi hi' => ?_⟩
    have hget := hall.get hi (hall.length_eq ▸ hi)
    simpa using hget.tallies

/-- **A segment whose columns are known answers** functions that have a
total. -/
theorem exists_run
    (hknown : ∀ f ∈ functions, ∀ name, f.column? = some name → ∃ c, s.find name = .ok c)
    (htotals : ∀ f ∈ functions, f.HasTotal s.integerRange?) :
    ∃ r, (run s.segment functions options).value = .ok r ∧ r.exceptions = [] := by
  obtain ⟨columns, hcolumns⟩ : ∃ columns,
      (fetchedColumns [] functions).mapM s.find = .ok columns := by
    refine Except.exists_mapM_ok.2 fun name hname => ?_
    obtain hnone | ⟨f, hf, hcolumn⟩ := mem_fetchedColumns_iff.1 hname
    · exact absurd hnone List.not_mem_nil
    · exact hknown f hf name hcolumn
  obtain ⟨source, holders, hscan, hholders⟩ :=
    exists_scan_holders hcolumns htotals options.nullHandling
  obtain ⟨documents, hscanned⟩ := scanWith_value .aggregation hholders
  rw [← hscan] at hscanned
  exact ⟨_, Except.map_eq_ok.2 ⟨_, hscanned, rfl⟩, rfl⟩

end Aggregation

end SegmentQuery
