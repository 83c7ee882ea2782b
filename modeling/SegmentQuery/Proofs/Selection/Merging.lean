import SegmentQuery.Proofs.Result.Combining
import SegmentQuery.Proofs.Selection.OrderedRows
/-!
# Merging rows in order

A collection that holds the best of some rows stays one that does, when
the best of other rows are merged into it: it then holds the best of all
of them. Nothing is refused on the way if the order accepts the rows.
-/


namespace SegmentQuery

namespace OrderedRows

variable {order : RowOrder} {maximum : Nat} {all more : List Row} {target source : OrderedRows}

/-- **Merging the best of some rows with the best of others** leaves the
best of all. -/
theorem Best.merge (htarget : Best order maximum all target)
    (hsource : Best order maximum more source)
    (haccepts : ∀ row ∈ more, target.order.validate row = .ok ()) :
    ∃ merged, target.merge source = .done merged ∧ merged.order = target.order ∧
      Best order maximum (all ++ more) merged := by
  obtain ⟨dropped, hall⟩ := htarget.best
  obtain ⟨dropped', hmore⟩ := hsource.best
  have haccepts' : ∀ row ∈ source.layout, target.order.validate row = .ok () := fun row hrow =>
    haccepts row (hmore.perm.mem_iff.2 (List.mem_append_left dropped' hrow))
  refine ⟨_, offerAll_ok haccepts', order_foldl_put target source.layout, ?_⟩
  have hvalid := htarget.valid.offerAll source.layout
  have hmerged := htarget.valid.isBest_offerAll source.layout
  rw [htarget.maximum_eq] at hmerged
  have hlayout : (source.layout.foldl put target).heap =
      target.heap.offerAll order.compare source.layout := by
    rw [foldl_put, htarget.compare_eq]
  refine ⟨?_, ?_, (maximum_foldl_put _ _).trans htarget.maximum_eq, ?_⟩
  · rw [order_foldl_put, htarget.compare_eq]
  · rw [hlayout]
    exact hvalid
  · -- the target's rows stand for all it was offered, the source's for all of its own
    have hfront := hall.trans hmerged
    have hback := @IsBest.trans_middle _ _ _ _ _ _ _ all [] _ _ hmore (by simpa using hfront)
    rw [List.append_nil] at hback
    rw [layout, hlayout]
    exact ⟨_, hback⟩

/-- **Merging several collections**, one after the other. -/
theorem Best.foldlM_merge {alls : List (List Row)} {sources : List OrderedRows}
    (hsources : List.Forall₂ (Best order maximum) alls sources)
    (htarget : Best order maximum all target)
    (haccepts : ∀ rows ∈ alls, ∀ row ∈ rows, target.order.validate row = .ok ()) :
    ∃ merged, sources.foldlM (fun target source => (target.merge source).toExcept) target =
        .ok merged ∧ Best order maximum (all ++ alls.flatten) merged := by
  induction hsources generalizing all target with
  | nil => exact ⟨target, rfl, by rw [List.flatten_nil, List.append_nil]; exact htarget⟩
  | @cons rows source alls sources hsource _ ih =>
    obtain ⟨hrows, halls⟩ := List.forall_mem_cons.1 haccepts
    obtain ⟨next, hnext, horder, hbest⟩ := htarget.merge hsource hrows
    obtain ⟨merged, hmerged, hresult⟩ := ih hbest (horder ▸ halls)
    refine ⟨merged, ?_, ?_⟩
    · rw [List.foldlM_cons, hnext]
      exact hmerged
    · rw [List.flatten_cons, ← List.append_assoc]
      exact hresult

/-- **Results with ordered rows merge as the rows do**, under the schema
of the first. -/
theorem foldlM_mergeResult {c : Combiner} {first : PartialResult} {rest : List PartialResult}
    {sources : List OrderedRows} {merged : OrderedRows}
    (hfirst : first.rows = .orderedSelection target)
    (hrest : List.Forall₂ (fun (r : PartialResult) rows => r.rows = .orderedSelection rows) rest
      sources)
    (hmerged : sources.foldlM (fun target source => (target.merge source).toExcept) target =
      .ok merged) :
    ∃ r, rest.foldlM c.mergeResult first = .ok r ∧ r.schema = first.schema ∧
      r.rows = .orderedSelection merged := by
  have hrows (a b : OrderedRows) :
      (c.mergeRows (.orderedSelection a) (.orderedSelection b)).toExcept.map (·.1) =
        (a.merge b).toExcept.map ResultRows.orderedSelection := by
    rw [Combiner.mergeRows, Progress.toExcept_map]
    cases (a.merge b).toExcept <;> rfl
  exact Combiner.exists_foldlM_mergeResult (fun _ => ResultRows.noConfusion) hrows hrest hfirst
    hmerged

/-! ## Windows -/

/-- Some rows are those from `offset` to `offset + limit` of all rows in
order, as far as key tuples tell. -/
structure IsWindow (order : RowOrder) (offset limit : Nat) (all rows : List Row) : Prop where
  length : rows.length = min limit (all.length - offset)
  subperm : rows.Subperm all
  ascending : Ascending order.compare rows
  keys : rows.map order.keyTuple =
    (((order.sort all).map order.keyTuple).drop offset).take limit

/-- **A collection of the best `offset + limit` rows, without the first
`offset`, is a window on all rows.** A greatest number of rows that is
less will do if there are no more rows than that. -/
theorem Best.isWindow {offset limit : Nat} (h : Best order maximum all target)
    (hmaximum : min maximum all.length = min (offset + limit) all.length) :
    IsWindow order offset limit all (target.sorted.drop offset) := by
  obtain ⟨dropped, hbest⟩ := h.isBest_sorted
  have hsublist : (target.sorted.drop offset).Sublist target.sorted := List.drop_sublist _ _
  refine ⟨?_, ?_, ?_, ?_⟩
  · have hlength := hbest.length
    rw [List.length_drop]
    omega
  · have hkept : target.sorted.Subperm all :=
      (List.sublist_append_left target.sorted dropped).subperm.trans hbest.perm.symm.subperm
    exact hsublist.subperm.trans hkept
  · exact List.Pairwise.sublist hsublist h.ascending_sorted
  · have hlength : (order.sort all).length = all.length := (order.sort_perm all).length_eq
    rw [List.map_drop, h.map_keyTuple_sorted, List.take_drop]
    refine congrArg (List.drop offset) (List.take_eq_take_iff.2 ?_)
    rw [List.length_map, hlength, hmaximum, Nat.add_comm]

end OrderedRows

end SegmentQuery
