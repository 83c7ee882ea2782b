import SegmentQuery.Proofs.Wire.Tables
/-!
# What a server sends comes back

The tables that are made of rows, statistics and exceptions are portable,
so every such table comes back from its payload. Its rows are those that
went in, null exactly where they were null, and its statistics and
exceptions are those that were recorded.
-/


namespace SegmentQuery

open Number (bound32 bound64)

namespace DataTable

/-- The null rows of a table of 32 bit numbers of rows are such numbers. -/
theorem exists_nullsOf {rows : List Row} (h : rows.length ≤ bound32) (column : Nat) :
    ∃ s : DocSet, (∀ n ∈ s.toList, n < bound32) ∧ nullsOf rows column = .ofDocSet s := by
  refine ⟨_, fun n hn => ?_, rfl⟩
  obtain ⟨pair, hmem, rfl⟩ := List.mem_map.1 (DocSet.mem_toList_ofList.1 hn)
  have hget : rows[pair.2]? = some pair.1 := List.mem_zipIdx_iff_getElem?.1 (List.mem_filter.1 hmem).1
  exact Nat.lt_of_lt_of_le (List.getElem?_eq_some_iff.1 hget).1 h

/-- **A table of rows, statistics and exceptions is portable.** -/
theorem portable_ofRows {schema : Schema} {rows : List Row} {t : DataTable}
    (h : ofRows schema rows = .ok t) (stats : ExecutionStats)
    {exceptions : List ProcessingException} (hcodes : ∀ x ∈ exceptions, x.code < bound32) :
    Portable { t.withStats stats with exceptions := exceptions } := by
  obtain ⟨⟨⟩, hcheck, ht⟩ := Except.bind_eq_ok.1 h
  obtain ⟨-, hcount⟩ := checkRows_eq_ok_iff.1 hcheck
  have hnulls : t.nulls = (List.range schema.width).map (nullsOf rows) := by
    rw [← Except.ok.inj ht]
  have hmetadata : t.metadata = .empty := by rw [← Except.ok.inj ht]
  refine ⟨?_, ?_, hcodes⟩
  · show ∀ set ∈ t.nulls, _
    rw [hnulls]
    exact List.forall_mem_map.2 fun column _ => exists_nullsOf hcount column
  · refine sorted_withStats t stats ?_
    rw [hmetadata]
    exact List.Pairwise.nil

/-! ## Rows -/

/-- Nulls are put back among the cells that travelled as among the
cells. -/
theorem restoreNulls_map_carried (index : Nat) (row : Row) (nulls : List NullSet) :
    restoreNulls index (row.map Cell.carried) nulls =
      (restoreNulls index row nulls).map Cell.carried := by
  induction row generalizing nulls with
  | nil => cases nulls <;> rfl
  | cons cell row ih =>
    cases nulls with
    | nil => rfl
    | cons set nulls =>
      rw [List.map_cons, restoreNulls, restoreNulls, List.map_cons, ih]
      congr 1
      split <;> rfl

/-- The rows of what travels are what travels of the rows. -/
theorem allRows_carried (t : DataTable) :
    t.carried.allRows = t.allRows.map (·.map Cell.carried) := by
  rw [allRows, allRows, carried, List.zipIdx_map, List.map_map, List.map_map]
  exact List.map_congr_left fun pair _ => restoreNulls_map_carried pair.2 pair.1 t.nulls

/-- Placeholders travel as themselves. -/
theorem carried_placeholder (type : ColumnType) (role : FieldKind) :
    (type.placeholder role).carried = type.placeholder role := by
  cases type <;> cases role <;> decide

/-- The stored cells travel unchanged when the rows' cells do. -/
theorem map_carried_ofRows {schema : Schema} {rows : List Row} {t : DataTable}
    (h : ofRows schema rows = .ok t) (hrows : ∀ row ∈ rows, ∀ cell ∈ row, cell.carried = cell) :
    t.rows.map (·.map Cell.carried) = t.rows := by
  obtain ⟨⟨⟩, -, ht⟩ := Except.bind_eq_ok.1 h
  have hstored : t.rows = rows.map (storedRow schema) := by rw [← Except.ok.inj ht]
  have hrow : ∀ row ∈ rows, (storedRow schema row).map Cell.carried = storedRow schema row := by
    intro row hrow
    rw [storedRow, ← List.map_uncurry_zip_eq_zipWith, List.map_map]
    refine List.map_congr_left fun pair hmem => ?_
    show Cell.carried (if pair.1.isNull then _ else pair.1) = if pair.1.isNull then _ else pair.1
    split
    · exact carried_placeholder pair.2.type pair.2.role
    · exact hrows row hrow pair.1 (List.of_mem_zip hmem).1
  rw [hstored, List.map_map]
  exact List.map_congr_left hrow

/-! ## Payloads -/

variable {schema : Schema} {rows : List Row} {t table : DataTable} {stats : ExecutionStats}
  {exceptions : List ProcessingException}

/-- **A table made of rows comes back from its payload** with all that it
was made of, and unchanged when its cells travel unchanged. -/
theorem ofBytes_toBytes_ofRows (hrows : ofRows schema rows = .ok t)
    (htable : table = { t.withStats stats with exceptions := exceptions })
    (hstats : ∀ entry ∈ stats.entries, entry.2 < bound64)
    (hcodes : ∀ x ∈ exceptions, x.code < bound32)
    (hsize : table.toBytes.length ≤ Payload.defaultLimit) :
    ∃ back, ofBytes table.toBytes = .ok back ∧ back = table.carried ∧
      back.allRows = rows.map (·.map Cell.carried) ∧ back.stats = stats ∧
      back.exceptions = exceptions ∧
      ((∀ row ∈ rows, ∀ cell ∈ row, cell.carried = cell) → back = table ∧ back.allRows = rows) := by
  have hportable : table.Portable := htable ▸ portable_ofRows hrows stats hcodes
  have hall : table.allRows = rows := by
    rw [htable]
    exact (allRows_ofRows hrows).1
  refine ⟨table.carried, ofBytes_toBytes hportable hsize, rfl, ?_, ?_, ?_, fun hsame => ?_⟩
  · rw [allRows_carried, hall]
  · rw [htable]
    exact stats_withStats t stats hstats
  · rw [htable]
    rfl
  · have hcells : table.rows.map (·.map Cell.carried) = table.rows := by
      rw [show table.rows = t.rows by rw [htable]; rfl]
      exact map_carried_ofRows hrows hsame
    have hcarried : table.carried = table := by rw [carried, hcells]
    exact ⟨hcarried, by rw [hcarried, hall]⟩

/-- Two rows with a null, and a NaN that comes back as the quiet one. -/
theorem ofBytes_toBytes_ofRows_two :
    ∃ t, ofRows ⟨[⟨"sum(x)", .double, .metric⟩, ⟨"d", .bigDecimal, .dimension⟩]⟩
        [[.double ⟨0xfff0000000000001⟩, .bigDecimal ⟨⟨false, 150, 2⟩, by decide, by decide⟩],
          [.null, .bigDecimal .zero]] = .ok t ∧
      ∃ back, ofBytes ({ t.withStats { docsScanned := 2 } with
          exceptions := [⟨200, "late"⟩] } : DataTable).toBytes = .ok back ∧
        back.allRows = [[.double .nan, .bigDecimal ⟨⟨false, 150, 2⟩, by decide, by decide⟩],
          [.null, .bigDecimal .zero]] ∧
        back.stats = { docsScanned := 2 } ∧ back.exceptions = [⟨200, "late"⟩] := by
  refine ⟨_, rfl, ?_⟩
  obtain ⟨back, hback, -, hall, hstats, hexceptions, -⟩ :=
    @ofBytes_toBytes_ofRows ⟨[⟨"sum(x)", .double, .metric⟩, ⟨"d", .bigDecimal, .dimension⟩]⟩
      [[.double ⟨0xfff0000000000001⟩, .bigDecimal ⟨⟨false, 150, 2⟩, by decide, by decide⟩],
        [.null, .bigDecimal .zero]] _ _ { docsScanned := 2 } [⟨200, "late"⟩] rfl rfl
      (by decide) (by decide) (by decide +kernel)
  exact ⟨back, hback, hall.trans (by decide), hstats, hexceptions⟩

/-- **A negative zero does not come back as it was.** -/
theorem ofBytes_toBytes_negative_zero :
    ∃ t, ofRows ⟨[⟨"d", .bigDecimal, .dimension⟩]⟩
        [[.bigDecimal ⟨⟨true, 0, 28⟩, by decide, by decide⟩]] = .ok t ∧
      (t.withStats {}).toBytes.length ≤ Payload.defaultLimit ∧
      ofBytes (t.withStats {}).toBytes ≠ .ok (t.withStats {}) := by
  obtain ⟨t, ht⟩ : ∃ t, ofRows ⟨[⟨"d", .bigDecimal, .dimension⟩]⟩
      [[.bigDecimal ⟨⟨true, 0, 28⟩, by decide, by decide⟩]] = .ok t := ⟨_, rfl⟩
  have hsize : (t.withStats {}).toBytes.length ≤ Payload.defaultLimit := by
    obtain rfl := Except.ok.inj ht
    decide +kernel
  have hportable : (t.withStats {}).Portable := by
    have h := @portable_ofRows _ _ _ ht {} [] (List.forall_mem_nil _)
    obtain rfl := Except.ok.inj ht
    exact h
  refine ⟨t, ht, hsize, fun hback => ?_⟩
  rw [ofBytes_toBytes hportable hsize] at hback
  have hrows : t.rows.map (·.map Cell.carried) = t.rows :=
    congrArg DataTable.rows (Except.ok.inj hback)
  obtain rfl := Except.ok.inj ht
  exact absurd hrows (by decide)

end DataTable

end SegmentQuery
