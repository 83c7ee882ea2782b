import SegmentQuery.Broker.Reduce
import SegmentQuery.Proofs.Operator.Distinct
/-!
# Distinct values merge the same way twice

A server merges collections of distinct values, the broker takes in the
cells of their rows. What fits a collection reads back as the value it
was, so both show the same values in the end, and a merged collection can
stand for the ones that were merged.
-/


namespace SegmentQuery

variable {type : StoredType} {order : Option Direction} {limit : Nat} {nullHandling : Bool}
variable {d : DistinctValues}

namespace DistinctValues

/-- The row that shows a value. -/
def rowOf (value : Option Key) : Row := [(value.map Key.cell).getD .null]

theorem rows_eq (d : DistinctValues) : d.rows = d.values.map rowOf := by
  rw [rows, cells, List.map_map]
  refine List.map_congr_left fun value _ => ?_
  cases value <;> rfl

/-- **A value reads back** from the cell that shows it. -/
theorem Collects.addCell (h : Collects type order limit nullHandling d) {value : Option Key}
    (hvalue : Fits type nullHandling value) :
    d.addCell ((rowOf value).head?.getD .null) = .ok (d.add value) := by
  cases value with
  | none =>
    have hnulls : d.nullHandling = true := h.nullHandling_eq.trans hvalue
    show DistinctValues.addCell d .null = _
    rw [DistinctValues.addCell, hnulls]
    rfl
  | some key =>
    obtain ⟨hkey, htype, hsingle⟩ := hvalue
    have hnull : key.cell.isNull = false := Cell.isNull_of_ne fun heq => by
      rw [heq] at htype
      exact nomatch htype
    have hcell : key.cell.storedType = some d.type ∧ !key.cell.isMultiValue := by
      rw [htype, hsingle, h.type_eq]
      exact ⟨rfl, rfl⟩
    show DistinctValues.addCell d key.cell = _
    simp only [DistinctValues.addCell, hnull, Bool.false_eq_true, if_false, if_pos hcell, hkey]

/-- Merging takes in the values of a collection of the same type. -/
theorem merge_eq_ok {target source merged : DistinctValues} :
    target.merge source = .ok merged ↔
      target.type = source.type ∧ merged = source.values.foldl add target := by
  unfold merge
  split
  · rename_i heq
    simp only [heq, true_and, Except.ok.injEq, eq_comm]
  · rename_i hne
    simp [hne]

/-- **Collections that merge** show what their values make of the first
one's. -/
theorem Collects.foldlM_merge {rest : List DistinctValues} {merged : DistinctValues}
    (h : Collects type order limit nullHandling d)
    (hrest : ∀ source ∈ rest, ∃ type', Collects type' order limit nullHandling source)
    (hmerge : rest.foldlM merge d = .ok merged) :
    Collects type order limit nullHandling merged ∧
      (∀ source ∈ rest, Collects type order limit nullHandling source) ∧
      merged.values = (rest.flatMap values).foldl (keep limit order) d.values := by
  induction rest generalizing d with
  | nil =>
    obtain rfl := Except.ok.inj hmerge
    exact ⟨h, fun _ hsource => absurd hsource List.not_mem_nil, rfl⟩
  | cons source rest ih =>
    obtain ⟨⟨type', hsource⟩, hrest⟩ := List.forall_mem_cons.1 hrest
    obtain ⟨next, hnext, htail⟩ := Except.bind_eq_ok.1 hmerge
    obtain ⟨htypes, rfl⟩ := merge_eq_ok.1 hnext
    obtain rfl : type' = type := by rw [← hsource.type_eq, ← htypes, h.type_eq]
    have hvalues := (h.sound.foldl_add source.values).2
    rw [h.limit_eq, h.order_eq] at hvalues
    obtain ⟨hmerged, hall, hshown⟩ := ih (h.foldl_add hsource.fits) hrest htail
    refine ⟨hmerged, List.forall_mem_cons.2 ⟨hsource, hall⟩, ?_⟩
    rw [hshown, hvalues, List.flatMap_cons, List.foldl_append]

end DistinctValues

namespace Broker

open DistinctValues

/-- **Rows of values that fit** are taken in as the values that they
show; a saturated collection may leave the last ones out. -/
theorem addDistinct_rowOf (h : Collects type order limit nullHandling d)
    {values : List (Option Key)} (hvalues : ∀ value ∈ values, Fits type nullHandling value) :
    addDistinct d (values.map rowOf) = .ok (values.foldl DistinctValues.add d) := by
  induction values generalizing d with
  | nil => rfl
  | cons value rest ih =>
    obtain ⟨hvalue, hrest⟩ := List.forall_mem_cons.1 hvalues
    rw [List.map_cons, addDistinct, h.addCell hvalue, List.foldl_cons]
    show (if (d.add value).isSaturated then Except.ok (d.add value) else _) = _
    by_cases hfull : (d.add value).isSaturated = true
    · rw [if_pos hfull, foldl_add_of_isSaturated hfull]
    · rw [if_neg hfull]
      exact ih (h.add hvalue) hrest

/-- **Collections that servers merge and collections that the broker takes
in one after the other show the same values.** -/
theorem addDistinct_of_merge {rest : List DistinctValues} {merged : DistinctValues}
    (h : Collects type order limit nullHandling d)
    (hrest : ∀ source ∈ rest, ∃ type', Collects type' order limit nullHandling source)
    (hmerge : rest.foldlM merge d = .ok merged) :
    ∃ whole parts,
      addDistinct (new type order limit nullHandling) merged.rows = .ok whole ∧
      addDistinct (new type order limit nullHandling) ((d :: rest).flatMap rows) = .ok parts ∧
      whole.rows = parts.rows := by
  obtain ⟨hmerged, hall, hshown⟩ := h.foldlM_merge hrest hmerge
  have hnew := @collects_new type order limit nullHandling
  have hflat : (d :: rest).flatMap rows = ((d :: rest).flatMap values).map rowOf := by
    rw [List.map_flatMap]
    exact List.flatMap_congr fun source _ => rows_eq source
  have hfits : ∀ value ∈ (d :: rest).flatMap values, Fits type nullHandling value := by
    intro value hvalue
    obtain ⟨source, hsource, hmem⟩ := List.mem_flatMap.1 hvalue
    rcases List.mem_cons.1 hsource with rfl | hsource
    · exact h.fits value hmem
    · exact (hall source hsource).fits value hmem
  -- what a collection shows makes itself again, so both sides go on from the first one's values
  have hwhole := (hnew.sound.foldl_add merged.values).2
  have hparts := (hnew.sound.foldl_add ((d :: rest).flatMap values)).2
  have hmergedShown := hmerged.sound.foldl_keep_values
  have hfirstShown := h.sound.foldl_keep_values
  rw [hnew.limit_eq, hnew.order_eq, values_new] at hwhole hparts
  rw [hmerged.limit_eq, hmerged.order_eq] at hmergedShown
  rw [h.limit_eq, h.order_eq] at hfirstShown
  refine ⟨merged.values.foldl DistinctValues.add (new type order limit nullHandling),
    ((d :: rest).flatMap values).foldl DistinctValues.add (new type order limit nullHandling),
    ?_, ?_, ?_⟩
  · rw [rows_eq]
    exact addDistinct_rowOf hnew hmerged.fits
  · rw [hflat]
    exact addDistinct_rowOf hnew hfits
  · rw [rows_eq, rows_eq, hwhole, hparts, hmergedShown, List.flatMap_cons, List.foldl_append,
      hfirstShown, hshown]

end Broker

end SegmentQuery
