import SegmentQuery.Proofs.Result.NullSets
import SegmentQuery.Result.Table
/-!
# Tables give their rows back

A table stores placeholders for nulls and remembers where the nulls were.
Reading it puts them back: what went in comes out, row by row.
-/


namespace SegmentQuery

namespace DataTable

/-- The null rows of a column are the rows that are null there. -/
theorem contains_nullsOf {rows : List Row} {column index : Nat} {row : Row}
    (h : rows[index]? = some row) :
    (nullsOf rows column).contains index = row[column]?.any Cell.isNull := by
  rw [nullsOf, NullSet.contains_ofDocSet, Bool.eq_iff_iff, DocSet.contains_iff,
    DocSet.mem_toList_ofList]
  simp only [List.mem_map, List.mem_filter, Prod.exists, exists_eq_right,
    List.mem_zipIdx_iff_getElem?, h, Option.some.injEq]
  constructor
  · rintro ⟨_, rfl, hnull⟩
    exact hnull
  · intro hnull
    exact ⟨row, rfl, hnull⟩

/-- Putting the nulls back undoes the placeholders. -/
theorem restoreNulls_storedRow {index : Nat} {row : Row} {columns : List ResultColumn}
    {nulls : List NullSet} (hcolumns : row.length = columns.length)
    (hnulls : List.Forall₂ (fun (cell : Cell) (set : NullSet) => set.contains index = cell.isNull)
      row nulls) :
    restoreNulls index (storedRow ⟨columns⟩ row) nulls = row := by
  induction hnulls generalizing columns with
  | nil => rfl
  | @cons cell set row nulls hcell _ ih =>
    cases columns with
    | nil => exact absurd hcolumns (by simp)
    | cons column columns =>
      have hrest := ih (Nat.succ.inj hcolumns)
      simp only [storedRow, List.zipWith_cons_cons, restoreNulls, hcell] at hrest ⊢
      rw [hrest]
      cases cell <;> rfl

/-- Rows make a table when they are as wide as its schema and have
numbers of 32 bits. -/
theorem checkRows_eq_ok_iff {width : Nat} {rows : List Row} :
    checkRows width rows = .ok () ↔
      (∀ row ∈ rows, row.length = width) ∧ rows.length ≤ Number.bound32 := by
  have hone (pair : Row × Nat) : (do
      if pair.1.length ≠ width then throw (.rowWidth pair.2 pair.1.length width)
      if Number.bound32 ≤ pair.2 then throw .tooManyRows : Except QueryError Unit) = .ok () ↔
        pair.1.length = width ∧ pair.2 < Number.bound32 := by
    by_cases hwidth : pair.1.length = width
    · by_cases hindex : Number.bound32 ≤ pair.2
      · simp [hwidth, hindex, throw, throwThe, MonadExceptOf.throw]
      · simp [hwidth, hindex, pure, Except.pure, Nat.not_le.1 hindex]
    · simp [hwidth, throw, throwThe, MonadExceptOf.throw, bind, Except.bind]
  have hall : checkRows width rows = .ok () ↔
      ∀ pair ∈ rows.zipIdx, pair.1.length = width ∧ pair.2 < Number.bound32 := by
    rw [checkRows, Except.forM_eq_ok]
    exact forall₂_congr fun pair _ => hone pair
  rw [hall]
  constructor
  · intro h
    have hat (i : Nat) (hi : i < rows.length) : rows[i].length = width ∧ i < Number.bound32 :=
      h (rows[i], i) (List.mem_zipIdx_iff_getElem?.2 (List.getElem?_eq_getElem hi))
    refine ⟨fun row hrow => ?_, ?_⟩
    · obtain ⟨i, hi, rfl⟩ := List.mem_iff_getElem.1 hrow
      exact (hat i hi).1
    · by_contra hlong
      have := (hat Number.bound32 (by omega)).2
      omega
  · rintro ⟨hwidth, hlen⟩ ⟨row, i⟩ hpair
    have hget : rows[i]? = some row := List.mem_zipIdx_iff_getElem?.1 hpair
    have hi := (List.getElem?_eq_some_iff.1 hget).1
    exact ⟨hwidth row (List.mem_of_getElem? hget), Nat.lt_of_lt_of_le hi hlen⟩

/-- **A table gives back the rows it was made of.** -/
theorem allRows_ofRows {schema : Schema} {rows : List Row} {t : DataTable}
    (h : ofRows schema rows = .ok t) : t.allRows = rows ∧ t.schema = schema := by
  obtain ⟨⟨⟩, hcheck, ht⟩ := Except.bind_eq_ok.1 h
  obtain rfl := Except.ok.inj ht
  obtain ⟨hwidth, -⟩ := checkRows_eq_ok_iff.1 hcheck
  refine ⟨?_, rfl⟩
  apply List.ext_getElem?
  intro index
  simp only [allRows, List.getElem?_map, List.getElem?_zipIdx, Nat.zero_add]
  cases hrow : rows[index]? with
  | none => rfl
  | some row =>
    have hlen := hwidth row (List.mem_of_getElem? hrow)
    simp only [Option.map_some, Option.some.injEq]
    refine restoreNulls_storedRow hlen ?_
    rw [List.forall₂_iff_get]
    refine ⟨by simp [hlen], fun i hi hi' => ?_⟩
    simp only [List.get_eq_getElem, List.getElem_map, List.getElem_range]
    rw [contains_nullsOf hrow, List.getElem?_eq_getElem hi, Option.any_some]

/-- **A result's table gives back the result's rows.** -/
theorem allRows_ofPartial {r : PartialResult} {t : DataTable} (h : ofPartial r = .ok t) :
    t.allRows = r.rows.rows ∧ t.schema = r.schema := by
  obtain ⟨t', h', rfl⟩ := Except.map_eq_ok.1 h
  exact @allRows_ofRows _ _ t' h'

/-- **A result makes a table** when its rows are as wide as its schema and
there are not too many of them. -/
theorem exists_ofPartial_iff {r : PartialResult} :
    (∃ t, ofPartial r = .ok t) ↔
      (∀ row ∈ r.rows.rows, row.length = r.schema.width) ∧
        r.rows.rows.length ≤ Number.bound32 := by
  rw [← checkRows_eq_ok_iff]
  constructor
  · rintro ⟨t, ht⟩
    obtain ⟨t', ht', -⟩ := Except.map_eq_ok.1 ht
    obtain ⟨⟨⟩, hcheck, -⟩ := Except.bind_eq_ok.1 ht'
    exact hcheck
  · intro hcheck
    exact ⟨_, Except.map_eq_ok.2 ⟨_, Except.bind_eq_ok.2 ⟨(), hcheck, rfl⟩, rfl⟩⟩

end DataTable

end SegmentQuery
