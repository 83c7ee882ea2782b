import SegmentQuery.Proofs.Broker.Window
import SegmentQuery.Proofs.Selection.Unordered
/-!
# The rows of a selection are rows of documents

However the rows of a selection are found, ordered, cut off and merged:
they are rows of matching documents, and no document's row is taken twice.
This needs nothing of the order, and holds of documents that are declared
sorted and are not.
-/


namespace SegmentQuery

variable {q : Query}

/-- What is taken from the images of some items are images of items that
are taken from these. -/
theorem exists_map_of_subperm {α β : Type} {f : α → β} {xs : List α} {ys : List β}
    (h : ys.Subperm (xs.map f)) : ∃ picked : List α, picked.Subperm xs ∧ picked.map f = ys := by
  obtain ⟨sub, hperm, hsub⟩ := h
  obtain ⟨kept, hkept, rfl⟩ := List.sublist_map_iff.1 hsub
  have himages : List.Forall₂ (fun y x => f x = y) (kept.map f) kept :=
    List.forall₂_map_left_iff.2 (List.forall₂_same.2 fun _ _ => rfl)
  obtain ⟨picked, hpicked, hpickedPerm⟩ := List.perm_comp_forall₂ hperm.symm himages
  exact ⟨picked, hpickedPerm.subperm.trans hkept.subperm, map_eq_of_forall₂ hpicked.flip⟩

/-! ## Documents -/

/-- The documents that scans of some segments visit. -/
def MemorySegment.matchingDocuments (segments : List MemorySegment) : List (MemorySegment × Nat) :=
  segments.flatMap fun s => s.matching.map fun d => (s, d)

open MemorySegment (matchingDocuments)

theorem MemorySegment.of_mem_matchingDocuments {segments : List MemorySegment}
    {document : MemorySegment × Nat} (h : document ∈ matchingDocuments segments) :
    document.1 ∈ segments ∧ document.2 ∈ document.1.matching := by
  obtain ⟨s, hs, hdocument⟩ := List.mem_flatMap.1 h
  obtain ⟨d, hd, rfl⟩ := List.mem_map.1 hdocument
  exact ⟨hs, hd⟩

/-- The row that a query fetches of a document. -/
def Query.rowOf (q : Query) (document : MemorySegment × Nat) : Row :=
  document.1.row q.options.nullHandling (q.fetched document.1) document.2

theorem Query.matchingRows_eq_map (q : Query) (segments : List MemorySegment) :
    q.matchingRows segments = (matchingDocuments segments).map q.rowOf := by
  rw [matchingDocuments, List.map_flatMap]
  refine List.flatMap_congr fun s _ => ?_
  rw [List.map_map]
  rfl

/-! ## Collections -/

namespace OrderedRows

variable {all : List Row} {r r' : OrderedRows}

/-- A collection within its bounds whose rows are taken from some rows. -/
structure Takes (all : List Row) (r : OrderedRows) : Prop where
  valid : r.heap.Valid r.order.compare
  subperm : r.layout.Subperm all

/-- Rows that are put are rows to take. -/
theorem Takes.foldl_put (h : Takes all r) (rows : List Row) :
    Takes (all ++ rows) (rows.foldl put r) := by
  have hbest := h.valid.isBest_offerAll rows
  rw [OrderedRows.foldl_put]
  refine ⟨h.valid.offerAll rows, ?_⟩
  have hkept : (r.heap.offerAll r.order.compare rows).toList.Subperm (r.layout ++ rows) :=
    (List.sublist_append_left _ _).subperm.trans hbest.perm.symm.subperm
  exact hkept.trans (h.subperm.append (List.Subperm.refl rows))

theorem takes_foldl_put (order : RowOrder) (maximum : Nat) (rows : List Row) :
    Takes rows (rows.foldl put (empty order maximum)) :=
  Takes.foldl_put (r := empty order maximum) ⟨TopK.valid_empty maximum, List.Subperm.refl []⟩ rows

/-- Rows that were all accepted were all put. -/
theorem of_offerAll {rows : List Row} (h : (r.offerAll rows).toExcept = .ok r') :
    r' = rows.foldl put r := by
  have hput (r : OrderedRows) (row : Row) (t : OrderedRows)
      (h : (Progress.ofExcept r ((r.offer row).map (·.2))).toExcept = .ok t) :
      (Except.ok (r.put row) : Except QueryError OrderedRows) = .ok t := by
    rw [Progress.toExcept_ofExcept] at h
    obtain ⟨pair, hoffer, rfl⟩ := Except.map_eq_ok.1 h
    obtain ⟨⟨⟩, -, hpair⟩ := Except.bind_eq_ok.1 hoffer
    obtain rfl := Except.ok.inj hpair
    rfl
  rw [offerAll, Progress.toExcept_foldl] at h
  have hfold := Except.foldlM_imp hput h
  rw [Except.foldlM_ok fun _ _ _ => rfl] at hfold
  exact (Except.ok.inj hfold).symm

/-- What is shown is taken too. -/
theorem Takes.sorted (h : Takes all r) : r.sorted.Subperm all :=
  (List.mergeSort_perm _ _).subperm.trans h.subperm

end OrderedRows

/-! ## Merges -/

/-- Rows of a selection that are taken from some rows. -/
inductive ResultRows.Takes (all : List Row) : ResultRows → Prop
  | selection {rows : List Row} (h : rows.Subperm all) : Takes all (.selection rows)
  | ordered {rows : OrderedRows} (h : rows.Takes all) : Takes all (.orderedSelection rows)

theorem ResultRows.Takes.rows {all : List Row} {rows : ResultRows} (h : rows.Takes all) :
    rows.rows.Subperm all := by
  cases h with
  | selection h => exact h
  | ordered h => exact h.sorted

namespace Combiner

variable {c : Combiner} {all more : List Row}

/-- **Rows that merge are taken from those of both sides.** -/
theorem takes_mergeRows {target other : ResultRows} {merged : ResultRows × Bool}
    (htarget : target.Takes all) (hother : other.Takes more)
    (h : (c.mergeRows target other).toExcept = .ok merged) : merged.1.Takes (all ++ more) := by
  cases htarget with
  | selection htarget =>
    cases hother with
    | ordered _ => exact nomatch h
    | selection hother =>
      obtain rfl := Except.ok.inj h
      exact .selection (htarget.append ((List.take_sublist _ _).subperm.trans hother))
  | ordered htarget =>
    cases hother with
    | selection _ => exact nomatch h
    | @ordered source hother =>
      rw [mergeRows, Progress.toExcept_map] at h
      obtain ⟨rows, hrows, rfl⟩ := Except.map_eq_ok.1 h
      obtain rfl := OrderedRows.of_offerAll hrows
      have hall := htarget.foldl_put source.layout
      exact .ordered ⟨hall.valid, hall.subperm.trans ((List.Subperm.refl all).append hother.subperm)⟩

theorem takes_mergeResult {target other r : PartialResult} (htarget : target.rows.Takes all)
    (hother : other.rows.Takes more) (h : c.mergeResult target other = .ok r) :
    r.schema = target.schema ∧ r.rows.Takes (all ++ more) := by
  unfold mergeResult mergeInto at h
  split at h
  · rename_i hempty
    rw [hempty] at htarget
    exact nomatch htarget
  · simp only [Progress.toExcept_map] at h
    obtain ⟨merged, hmerged, rfl⟩ := Except.map_eq_ok.1 h
    exact ⟨rfl, takes_mergeRows htarget hother hmerged⟩

/-- **Results that merge one after the other** leave rows of all, under the
schema of the first. -/
theorem takes_foldlM {first r : PartialResult} {rest : List PartialResult} {mores : List (List Row)}
    (hrest : List.Forall₂ (fun more (r : PartialResult) => r.rows.Takes more) mores rest)
    (hfirst : first.rows.Takes all) (h : rest.foldlM c.mergeResult first = .ok r) :
    r.schema = first.schema ∧ r.rows.Takes (all ++ mores.flatten) := by
  induction hrest generalizing first all with
  | nil =>
    obtain rfl := Except.ok.inj h
    exact ⟨rfl, by rwa [List.flatten_nil, List.append_nil]⟩
  | @cons more other mores rest hother _ ih =>
    obtain ⟨merged, hmerge, htail⟩ := Except.bind_eq_ok.1 h
    obtain ⟨hschema, hmerged⟩ := takes_mergeResult hfirst hother hmerge
    obtain ⟨hschema', hall⟩ := ih hmerged htail
    exact ⟨hschema'.trans hschema, by rwa [List.flatten_cons, ← List.append_assoc]⟩

end Combiner

/-! ## Segments -/

namespace Selection

variable {s : MemorySegment} {r : PartialResult}

/-- A selection without an order takes rows of matching documents. -/
theorem takes_of_runUnordered {select : List String} {options : Options}
    (h : (runUnordered s.segment select options).value = .ok r) :
    let expressions := fetchedExpressions select [] options.limit s.segment.columnNames
    schema s.segment expressions = .ok r.schema ∧
      r.rows.Takes (s.matching.map (s.row options.nullHandling expressions)) := by
  intro expressions
  cases hschema : schema s.segment expressions with
  | error e =>
    rw [runUnordered, hschema] at h
    cases h
  | ok output =>
    by_cases hlimit : options.limit = 0
    · rw [runUnordered, hschema] at h
      simp only [if_pos hlimit] at h
      obtain rfl := Except.ok.inj h
      exact ⟨rfl, .selection List.nil_subperm⟩
    · obtain ⟨stats, hrun⟩ := runUnordered_eq (Nat.pos_of_ne_zero hlimit) hschema
      obtain rfl := Except.ok.inj (hrun.symm.trans h)
      exact ⟨rfl, .selection (List.take_sublist _ _).subperm⟩

/-- So does a plan, whatever its strategy. -/
theorem Plan.takes_of_run {p : Plan} (hp : p.segment = s.segment)
    (hwidth : p.orderWidth ≤ p.expressions.length) (hkeep : 0 < p.keep)
    (h : p.run.value = .ok r) :
    schema s.segment p.expressions = .ok r.schema ∧ r.rows.Takes (rowsOf s p s.matching) := by
  rw [← hp]
  cases hschema : schema p.segment p.expressions with
  | error e =>
    rw [run_of_schema_error hschema] at h
    cases h
  | ok output =>
    obtain ⟨order, stats, -, hrun⟩ := run_eq hp hwidth hkeep hschema
    obtain rfl := Except.ok.inj (hrun.symm.trans h)
    have htakes := OrderedRows.takes_foldl_put order p.keep (rowsOf s p (documentsOf s p))
    have hdocuments : (documentsOf s p).Sublist s.matching := by
      unfold documentsOf
      split
      · exact List.take_sublist _ _
      · exact List.Sublist.refl _
    exact ⟨rfl, .ordered ⟨htakes.valid, htakes.subperm.trans (hdocuments.map _).subperm⟩⟩

end Selection

namespace Broker

variable {s : MemorySegment} {segments : List MemorySegment}

/-- **A segment yields rows of its documents**, under the schema of what is
fetched. -/
theorem takes_of_segment (hkind : q.kind = .selection) {r : PartialResult}
    (h : (q.runOver s.segment).value = .ok r) :
    Selection.schema s.segment (q.fetched s) = .ok r.schema ∧ r.rows.Takes (q.matchingRows [s]) := by
  rw [Query.runOver, hkind] at h
  simp only at h
  rw [Query.matchingRows_singleton]
  by_cases hplain : (q.orderBy.isEmpty || q.options.limit == 0) = true
  · rw [if_pos hplain] at h
    -- the ORDER BY list is empty or left out
    have hfetched : Selection.fetchedExpressions q.select [] q.options.limit
        s.segment.columnNames = q.fetched s := by
      unfold Query.fetched Selection.fetchedExpressions
      rcases Bool.or_eq_true_iff.1 hplain with hnone | hzero
      · rw [List.isEmpty_iff.1 hnone]
      · rw [beq_iff_eq.1 hzero]
        rfl
    exact hfetched ▸ Selection.takes_of_runUnordered h
  · rw [if_neg hplain] at h
    have hlimit : 0 < q.options.limit := by
      rw [Bool.not_eq_true, Bool.or_eq_false_iff] at hplain
      exact Nat.pos_of_ne_zero (beq_eq_false_iff_ne.1 hplain.2)
    exact Selection.Plan.takes_of_run rfl Selection.Plan.orderWidth_make_le
      (Selection.Plan.rowsToKeep_pos hlimit) h

/-! ## Servers -/

/-- **A server yields rows of its segments' documents**, under the schema of
what is fetched from the first. -/
theorem takes_of_server (hkind : q.kind = .selection)
    (h : (q.run (segments.map MemorySegment.segment)).value.exceptions = []) :
    segments = [] ∨ ∃ s ∈ segments,
      Selection.schema s.segment (q.fetched s) =
        .ok (q.run (segments.map MemorySegment.segment)).value.schema ∧
      (q.run (segments.map MemorySegment.segment)).value.rows.Takes (q.matchingRows segments) := by
  rcases Query.of_run h with hnil | ⟨first, rest, r, houtcomes, hfold, hrun⟩
  · exact .inl hnil
  · rw [hrun]
    obtain ⟨s, segments, hfirst, hrest, rfl⟩ := List.forall₂_cons_right_iff.1 houtcomes
    obtain ⟨hschema, htakes⟩ := takes_of_segment hkind hfirst
    have hothers : List.Forall₂ (fun more (r : PartialResult) => r.rows.Takes more)
        (segments.map fun t => q.matchingRows [t]) rest :=
      List.forall₂_map_left_iff.2 (hrest.imp fun _ _ ht => (takes_of_segment hkind ht).2)
    obtain ⟨hsame, hall⟩ := Combiner.takes_foldlM hothers htakes hfold
    refine .inr ⟨s, List.mem_cons_self, hsame ▸ hschema, ?_⟩
    rw [← Query.flatten_matchingRows]
    exact hall

end Broker

end SegmentQuery
