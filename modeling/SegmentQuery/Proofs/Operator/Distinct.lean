import SegmentQuery.Operator.Distinct
import SegmentQuery.Proofs.Distinct.Kept
import SegmentQuery.Proofs.Operator.Scanning
/-!
# What a scan for distinct values yields

A collection of one column's values stays what it was set up to be: sound,
of the column's type, with the order and the limit of the query, and every
value in it is one that such a column can have.
-/


namespace SegmentQuery

variable {type : StoredType} {order : Option Direction} {limit : Nat} {nullHandling : Bool}

namespace DistinctValues

/-- A value that a column of a type can have: a key of that type, or null
where nulls are handled. -/
def Fits (type : StoredType) (nullHandling : Bool) : Option Key → Prop
  | none => nullHandling = true
  | some key =>
    key.cell.key = key ∧ key.cell.storedType = some type ∧ key.cell.isMultiValue = false

/-- A sound collection of values of one type, with an order, a limit and
a null handling. -/
structure Collects (type : StoredType) (order : Option Direction) (limit : Nat)
    (nullHandling : Bool) (d : DistinctValues) : Prop where
  sound : d.Sound
  type_eq : d.type = type
  order_eq : d.order = order
  limit_eq : d.limit = limit
  nullHandling_eq : d.nullHandling = nullHandling
  fits : ∀ value ∈ d.values, Fits type nullHandling value

variable {d : DistinctValues}

theorem values_new : (new type order limit nullHandling).values = [] := by
  cases order with
  | none => rfl
  | some direction => exact List.mergeSort_nil

theorem collects_new :
    Collects type order limit nullHandling (new type order limit nullHandling) where
  sound := sound_new type order limit nullHandling
  type_eq := rfl
  order_eq := by cases order <;> rfl
  limit_eq := rfl
  nullHandling_eq := rfl
  fits := by simp [values_new]

/-- **A collection takes in a value that fits** and stays what it is. -/
theorem Collects.add (h : Collects type order limit nullHandling d) {value : Option Key}
    (hvalue : Fits type nullHandling value) :
    Collects type order limit nullHandling (d.add value) where
  sound := (h.sound.add value).1
  type_eq := (type_add value).trans h.type_eq
  order_eq := (order_add value).trans h.order_eq
  limit_eq := (limit_add value).trans h.limit_eq
  nullHandling_eq := (nullHandling_add value).trans h.nullHandling_eq
  fits := by
    intro v hv
    rw [(h.sound.add value).2] at hv
    rcases of_mem_keep hv with hv | rfl
    · exact h.fits v hv
    · exact hvalue

theorem Collects.foldl_add (h : Collects type order limit nullHandling d)
    {values : List (Option Key)} (hvalues : ∀ value ∈ values, Fits type nullHandling value) :
    Collects type order limit nullHandling (values.foldl DistinctValues.add d) := by
  induction values generalizing d with
  | nil => exact h
  | cons value rest ih =>
    obtain ⟨hvalue, hrest⟩ := List.forall_mem_cons.1 hvalues
    exact ih (h.add hvalue) hrest

/-! ## Reading -/

/-- What is read from a column fits. -/
theorem Collects.readAt (h : Collects type order limit nullHandling d) {c : Column} {position : Nat}
    {value : Option Key} (hread : d.readAt c position = .ok value) :
    Fits type nullHandling value := by
  obtain ⟨-, rfl, -, -, rfl, -⟩ := h
  unfold DistinctValues.readAt at hread
  by_cases hnull : (d.nullHandling && c.isNull position) = true
  · rw [if_pos hnull] at hread
    obtain rfl := Except.ok.inj hread
    exact (Bool.and_eq_true_iff.1 hnull).1
  · rw [if_neg hnull] at hread
    cases hvalues : c.values with
    | multi t vs =>
      rw [hvalues] at hread
      exact nomatch hread
    | single t vs =>
      rw [hvalues] at hread
      by_cases htype : t = d.type
      · simp only [if_pos htype] at hread
        cases hget : vs[position]? with
        | none =>
          rw [hget] at hread
          exact nomatch hread
        | some v =>
          rw [hget] at hread
          obtain rfl := Except.ok.inj hread
          refine ⟨Cell.key_cell_key _, ?_, ?_⟩
          · rw [Cell.storedType_key, ← htype]
            cases t <;> rfl
          · rw [Cell.isMultiValue_key]
            cases t <;> rfl
      · simp only [if_neg htype] at hread
        exact nomatch hread

/-- Taking in positions of a column. -/
theorem Collects.processFrom (h : Collects type order limit nullHandling d) {c : Column}
    {positions : List Nat} {d' : DistinctValues}
    (hprocess : (processFrom c d positions).toExcept = .ok d') :
    Collects type order limit nullHandling d' := by
  induction positions generalizing d with
  | nil =>
    obtain rfl := Except.ok.inj hprocess
    exact h
  | cons position rest ih =>
    unfold DistinctValues.processFrom at hprocess
    cases hread : d.readAt c position with
    | error e =>
      rw [hread] at hprocess
      exact nomatch hprocess
    | ok value =>
      rw [hread] at hprocess
      have hadd := h.add (h.readAt hread)
      by_cases hfull : (d.add value).isSaturated = true
      · simp only [if_pos hfull] at hprocess
        obtain rfl := Except.ok.inj hprocess
        exact hadd
      · simp only [if_neg hfull] at hprocess
        exact ih hadd hprocess

end DistinctValues

namespace Distinct

open DistinctValues

/-- **A scan yields a collection of the column's values**, under a schema
of that column alone. -/
theorem collects_run {segment : Segment} {column : String} {options : Options} {r : PartialResult}
    (h : (run segment column order options).value = .ok r) :
    ∃ type role d, r.schema = ⟨[⟨column, .ofStored type, role⟩]⟩ ∧ r.rows = .distinct d ∧
      Collects type order options.rowsToKeep options.nullHandling d := by
  unfold run at h
  simp only at h
  split at h
  · exact nomatch h
  · rename_i output values hprepared
    obtain ⟨metadata, -, hprepared⟩ := Except.bind_eq_ok.1 hprepared
    obtain ⟨columnType, htype, hprepared⟩ := Except.bind_eq_ok.1 hprepared
    obtain ⟨start, hstart, hprepared⟩ := Except.bind_eq_ok.1 hprepared
    obtain ⟨rfl, rfl⟩ := Prod.mk.inj (Except.ok.inj hprepared)
    obtain ⟨scanned, hscan, rfl⟩ := Except.map_eq_ok.1 h
    unfold forColumn at hstart
    by_cases hsingle : metadata.singleValue = true
    · rw [if_pos hsingle] at hstart
      obtain rfl := Except.ok.inj hstart
      rw [ColumnMetadata.columnType, if_pos hsingle] at htype
      obtain rfl := Except.ok.inj htype
      refine ⟨metadata.type, metadata.role, scanned.state, rfl, rfl, ?_⟩
      refine scanWith_preserves
        (P := Collects metadata.type order options.rowsToKeep options.nullHandling) .distinct ?_
        collects_new hscan
      intro d block visit hd hvisit
      obtain ⟨c, -, hvisit⟩ := Except.bind_eq_ok.1 hvisit
      obtain ⟨d', hprocess, hvisit⟩ := Except.bind_eq_ok.1 hvisit
      obtain rfl := Except.ok.inj hvisit
      exact hd.processFrom hprocess
    · rw [if_neg hsingle] at hstart
      exact nomatch hstart

end Distinct

end SegmentQuery
