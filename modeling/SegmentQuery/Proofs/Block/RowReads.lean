import SegmentQuery.Proofs.Operator.DistinctScans
import SegmentQuery.Proofs.Progress
import SegmentQuery.Proofs.Segment.Partitions
/-!
# Reading rows of a block

A row can be read for a document exactly when each column answers for it: by
a value, or, in a single-value column, by a recorded null, which is looked up
before the value is. So a null set that reaches past the end of its column
makes the column answer there, and a row past the end of the block can be
read where every column's null set does so. Filling a buffer reads the same
row, needs room for it, and never touches the cells around that room.
-/


namespace SegmentQuery

/-- A stored value as a cell; arrays of decimals and of bytes have none. -/
def StoredValue.cell? : StoredValue → Option Cell
  | .single t v => some (t.cell v)
  | .multi t vs => t.arrayCell?.map (· vs)

theorem StoredType.isNull_arrayCell {t : StoredType} {toCell : List t.Element → Cell}
    (h : t.arrayCell? = some toCell) (vs : List t.Element) : (toCell vs).isNull = false := by
  cases t <;> cases h <;> rfl

namespace Column

variable {c : Column} {document : Nat} {cell : Cell}

/-- Whether a reader takes a document for null. Multi-value columns hold no
nulls, and a null set may reach past the end of its column. -/
def RecordedNull (c : Column) (document : Nat) : Prop := c.isSingleValue ∧ c.isNull document

/-- Whether the column has something to say of a document. -/
def Answers (c : Column) (document : Nat) : Prop :=
  document < c.length ∨ c.RecordedNull document

/-- What a reader may see of a document: null where it is recorded as null,
and nowhere else, and the stored value elsewhere. -/
structure ReadsAs (c : Column) (document : Nat) (cell : Cell) : Prop where
  isNull_iff : cell.isNull ↔ c.RecordedNull document
  stored : ¬ c.RecordedNull document →
    ∃ value, c.values.at? document = some value ∧ value.cell? = some cell

/-- A document that is recorded as null reads as null. -/
theorem readsAs_null (h : c.RecordedNull document) : c.ReadsAs document .null :=
  ⟨iff_of_true rfl h, fun hnot => absurd h hnot⟩

/-- A document that is not reads as its value. -/
theorem readsAs_stored (h : ¬ c.RecordedNull document) {value : StoredValue}
    (hvalue : c.values.at? document = some value) (hcell : value.cell? = some cell)
    (hnull : cell.isNull = false) : c.ReadsAs document cell :=
  ⟨iff_of_false (Bool.eq_false_iff.1 hnull) h, fun _ => ⟨value, hvalue, hcell⟩⟩

/-- Without a value and a recorded null the column has nothing to say. -/
theorem not_answers (h : ¬ c.RecordedNull document) (hvalue : c.values.at? document = none) :
    ¬ c.Answers document := by
  rintro (hlt | hnull)
  · have hsome := ColumnValues.isSome_at?_iff.2 hlt
    rw [hvalue] at hsome
    cases hsome
  · exact h hnull

theorem answers_of_value (h : (c.values.at? document).isSome) : c.Answers document :=
  .inl (ColumnValues.isSome_at?_iff.1 h)

end Column

/-- Columns that cells can hold can be viewed as cells. -/
theorem CellColumn.exists_ofColumn {c : Column} (h : c.Readable) :
    ∃ view, ofColumn c = .ok view := by
  obtain ⟨values, nulls⟩ := c
  cases values with
  | single t vs => exact ⟨_, rfl⟩
  | multi t vs =>
    obtain ⟨toCell, htoCell⟩ := Option.isSome_iff_exists.1 h
    rw [ofColumn]
    dsimp only
    rw [htoCell]
    exact ⟨_, rfl⟩

/-- The nulls of a view are those that its column records. -/
theorem CellColumn.recordsNull_iff {c : Column} {view : CellColumn} (h : ofColumn c = .ok view)
    (document : Nat) : Column.recordsNull view.nulls document ↔ c.RecordedNull document := by
  obtain ⟨values, nulls⟩ := c
  cases values with
  | single t vs =>
    obtain rfl := Except.ok.inj h
    exact (and_iff_right rfl).symm
  | multi t vs =>
    rw [ofColumn] at h
    dsimp only at h
    split at h
    · obtain rfl := Except.ok.inj h
      exact iff_of_false Bool.false_ne_true fun h => Bool.false_ne_true h.1
    · cases h

/-- The cells of a view are the values of its column, none of them null. -/
theorem CellColumn.getElem?_cells {c : Column} {view : CellColumn} (h : ofColumn c = .ok view)
    (document : Nat) : view.cells[document]? = (c.values.at? document).bind StoredValue.cell? ∧
      ∀ value, c.values.at? document = some value →
        ∃ cell, value.cell? = some cell ∧ cell.isNull = false := by
  obtain ⟨values, nulls⟩ := c
  cases values with
  | single t vs =>
    obtain rfl := Except.ok.inj h
    simp only [List.getElem?_map, ColumnValues.at?]
    cases vs[document]? with
    | none => exact ⟨rfl, fun _ h => by cases h⟩
    | some v =>
      refine ⟨rfl, ?_⟩
      rintro _ ⟨⟩
      exact ⟨t.cell v, rfl, t.isNull_cell v⟩
  | multi t vs =>
    rw [ofColumn] at h
    dsimp only at h
    split at h
    · rename_i toCell htoCell
      obtain rfl := Except.ok.inj h
      simp only [List.getElem?_map, ColumnValues.at?]
      cases vs[document]? with
      | none => exact ⟨rfl, fun _ h => by cases h⟩
      | some v =>
        have hcell : (StoredValue.multi t v).cell? = some (toCell v) := by
          rw [StoredValue.cell?, htoCell]
          rfl
        refine ⟨hcell.symm, ?_⟩
        rintro _ ⟨⟩
        exact ⟨toCell v, hcell, StoredType.isNull_arrayCell htoCell v⟩
    · cases h

/-- **One cell** can be read exactly when the column answers. -/
theorem CellColumn.cell_cases {c : Column} {view : CellColumn} (h : ofColumn c = .ok view)
    (document : Nat) :
    (c.Answers document ∧ ∃ cell, view.cell document = .ok cell ∧ c.ReadsAs document cell) ∨
      (¬ c.Answers document ∧ view.cell document = .error (.documentOutsideBlock document)) := by
  have hnull := recordsNull_iff h document
  obtain ⟨hcells, hvalues⟩ := getElem?_cells h document
  unfold CellColumn.cell
  by_cases hrecorded : c.RecordedNull document
  · -- the null set decides, whether or not there is a value
    rw [if_pos (hnull.2 hrecorded)]
    exact .inl ⟨.inr hrecorded, .null, rfl, Column.readsAs_null hrecorded⟩
  · rw [if_neg (mt hnull.1 hrecorded), hcells]
    cases hvalue : c.values.at? document with
    | none => exact .inr ⟨Column.not_answers hrecorded hvalue, rfl⟩
    | some value =>
      obtain ⟨cell, hcell, hnot⟩ := hvalues value hvalue
      rw [Option.bind_some, hcell]
      exact .inl ⟨Column.answers_of_value (hvalue ▸ rfl), cell, rfl,
        Column.readsAs_stored hrecorded hvalue hcell hnot⟩

namespace RowView

variable {columns : List Column} {view : RowView}

theorem exists_ofColumns (h : ∀ c ∈ columns, c.Readable) :
    ∃ view, ofColumns columns = .ok view := by
  obtain ⟨cells, hcells⟩ := Except.exists_mapM_ok.2 fun c hc => CellColumn.exists_ofColumn (h c hc)
  exact ⟨⟨cells⟩, Except.map_eq_ok.2 ⟨cells, hcells, rfl⟩⟩

theorem width_ofColumns (h : ofColumns columns = .ok view) : view.width = columns.length := by
  obtain ⟨cells, hcells, rfl⟩ := Except.map_eq_ok.1 h
  exact (Except.mapM_eq_ok.1 hcells).length_eq.symm

/-- **A row** can be read exactly when every column answers. -/
theorem row_cases (h : ofColumns columns = .ok view) (document : Nat) :
    ((∀ c ∈ columns, c.Answers document) ∧ ∃ row, view.row document = .ok row ∧
      List.Forall₂ (fun c cell => c.ReadsAs document cell) columns row) ∨
    ((¬ ∀ c ∈ columns, c.Answers document) ∧
      view.row document = .error (.documentOutsideBlock document)) := by
  obtain ⟨cells, hcells, rfl⟩ := Except.map_eq_ok.1 h
  rw [Except.mapM_eq_ok] at hcells
  clear h
  unfold row
  induction hcells with
  | nil => exact .inl ⟨fun _ hc => absurd hc List.not_mem_nil, [], rfl, .nil⟩
  | @cons c cell columns cells hc _ ih =>
    simp only [List.mapM_cons, List.forall_mem_cons]
    rcases CellColumn.cell_cases hc document with ⟨hanswers, read, hread, hreads⟩ | ⟨hnot, hread⟩
    · rw [hread]
      rcases ih with ⟨hrest, row, hrow, hall⟩ | ⟨hrest, hrow⟩
      · refine .inl ⟨⟨hanswers, hrest⟩, read :: row, ?_, .cons hreads hall⟩
        rw [hrow]
        rfl
      · refine .inr ⟨fun hall => hrest hall.2, ?_⟩
        rw [hrow]
        rfl
    · rw [hread]
      exact .inr ⟨fun hall => hnot hall.1, rfl⟩

/-! ## Filling a buffer -/

/-- What a buffer is filled with is the row, and filling fails where there
is no room or no row. -/
theorem error_fill_eq_none_iff (view : RowView) (document start : Nat) (buffer : Row) :
    (view.fill document start buffer).error = none ↔
      (∃ row, view.row document = .ok row) ∧ start + view.width ≤ buffer.length := by
  constructor
  · intro hnone
    by_cases hfit : start + view.width ≤ buffer.length
    · refine ⟨Except.exists_mapM_ok.2 fun column hcolumn => ?_, hfit⟩
      -- every column was written, so its cell was read
      rw [fill, if_pos hfit] at hnone
      have hdone := Progress.toExcept_of_error_eq_none hnone
      rw [Progress.toExcept_foldl] at hdone
      rw [← List.zipIdx_map_fst start view.columns] at hcolumn
      obtain ⟨⟨c, place⟩, hmem, rfl⟩ := List.mem_map.1 hcolumn
      obtain ⟨before, after, hstep⟩ := Except.exists_of_foldlM_ok hdone hmem
      dsimp only at hstep ⊢
      cases hcell : c.cell document with
      | ok cell => exact ⟨cell, rfl⟩
      | error e =>
        rw [hcell] at hstep
        cases hstep
    · rw [fill, if_neg hfit] at hnone
      cases hnone
  · rintro ⟨⟨row, hrow⟩, hfit⟩
    rw [fill_ok hrow hfit]
    rfl

/-- **Filling leaves the rest of the buffer alone**, even where it
fails. -/
theorem getElem?_fill_of_outside (view : RowView) (document start : Nat) (buffer : Row)
    {place : Nat} (h : place < start ∨ start + view.width ≤ place) :
    (view.fill document start buffer).state[place]? = buffer[place]? := by
  rw [fill]
  split
  · refine Progress.foldl_preserves (P := fun row : Row => row[place]? = buffer[place]?) ?_ rfl
    rintro row hrow ⟨column, at'⟩ hmem
    have hat := List.mem_zipIdx hmem
    dsimp only
    cases column.cell document with
    | error e => exact hrow
    | ok cell =>
      have hne : at' ≠ place := by
        have := hat.1
        have := hat.2.1
        unfold width at h
        omega
      exact (List.getElem?_set_ne hne).trans hrow
  · rfl

/-! ## Rows of readable columns -/

/-- **Reading a row.** Columns that cells can hold can be viewed by row. The
row of a document can be read exactly when every column answers, and has the
columns' cells. It fills a buffer exactly when there is room for it as well:
it then stands where it was asked for, and the cells around it never
change. -/
theorem reads_of_readable {columns : List Column} (hread : ∀ c ∈ columns, c.Readable) :
    ∃ view, ofColumns columns = .ok view ∧ ∀ document : Nat,
      ((∃ row, view.row document = .ok row) ↔ ∀ c ∈ columns, c.Answers document) ∧
      ((¬ ∀ c ∈ columns, c.Answers document) →
        view.row document = .error (.documentOutsideBlock document)) ∧
      (∀ row, view.row document = .ok row →
        List.Forall₂ (fun c cell => c.ReadsAs document cell) columns row) ∧
      ∀ (buffer : Row) (start : Nat),
        ((view.fill document start buffer).error = none ↔
          (∀ c ∈ columns, c.Answers document) ∧ start + columns.length ≤ buffer.length) ∧
        (∀ row, view.row document = .ok row → start + columns.length ≤ buffer.length →
          view.fill document start buffer =
            .done (buffer.take start ++ (row ++ buffer.drop (start + columns.length)))) ∧
        ∀ place, place < start ∨ start + columns.length ≤ place →
          (view.fill document start buffer).state[place]? = buffer[place]? := by
  obtain ⟨view, hview⟩ := exists_ofColumns hread
  have hwidth := width_ofColumns hview
  refine ⟨view, hview, fun document => ?_⟩
  have hrow : (∃ row, view.row document = .ok row) ↔ ∀ c ∈ columns, c.Answers document := by
    rcases row_cases hview document with ⟨hall, row, hrow, -⟩ | ⟨hnot, hrow⟩
    · exact iff_of_true ⟨row, hrow⟩ hall
    · exact iff_of_false (fun ⟨row, h⟩ => nomatch hrow.symm.trans h) hnot
  refine ⟨hrow, fun hnot => ?_, fun row h => ?_, fun buffer start => ⟨?_, fun row h hfit => ?_, ?_⟩⟩
  · rcases row_cases hview document with ⟨hall, -⟩ | ⟨-, hrow⟩
    · exact absurd hall hnot
    · exact hrow
  · rcases row_cases hview document with ⟨-, row', hrow', hreads⟩ | ⟨-, hrow'⟩
    · obtain rfl := Except.ok.inj (hrow'.symm.trans h)
      exact hreads
    · exact nomatch hrow'.symm.trans h
  · rw [error_fill_eq_none_iff, hrow, hwidth]
  · rw [← hwidth] at hfit
    rw [fill_ok h hfit, ← hwidth]
    have hlength : row.length = view.width := (Except.mapM_eq_ok.1 h).length_eq.symm
    rw [hlength]
  · rw [← hwidth]
    exact fun place hplace => getElem?_fill_of_outside view document start buffer hplace

/-- A column of one value whose null set reaches past it. -/
def reaching : Column where
  values := .single .int [1]
  nulls := some (.ofList [5])

/-- A row past the end of its only column is read, and filled in, as null.
One that no null set reaches is not. -/
theorem reads_of_readable_reaching :
    (∀ c ∈ [reaching], c.Readable) ∧ reaching.length = 1 ∧
    ∃ view, ofColumns [reaching] = .ok view ∧ view.row 5 = .ok [.null] ∧
      view.fill 5 1 [.int 7, .int 8] = .done [.int 7, .null] ∧
      view.row 4 = .error (.documentOutsideBlock 4) := by
  have hread : ∀ c ∈ [reaching], c.Readable := fun c hc => by
    rw [List.mem_singleton.1 hc]
    trivial
  obtain ⟨view, hview, hdocuments⟩ := reads_of_readable hread
  obtain ⟨-, -, -, hfill⟩ := hdocuments 5
  have hcells : ofColumns [reaching] = .ok ⟨[⟨[.int 1], some (.ofList [5])⟩]⟩ := rfl
  obtain rfl := Except.ok.inj (hcells.symm.trans hview)
  have hrow : RowView.row ⟨[⟨[.int 1], some (.ofList [5])⟩]⟩ 5 = .ok [.null] := rfl
  obtain ⟨-, hfills, -⟩ := hfill [.int 7, .int 8] 1
  have hanswers : ¬ ∀ c ∈ [reaching], c.Answers 4 := by
    intro hall
    rcases hall reaching List.mem_cons_self with hlt | hnull
    · exact absurd hlt (by decide)
    · exact absurd hnull.2 (by decide)
  exact ⟨hread, rfl, _, hview, hrow, hfills _ hrow (by decide), (hdocuments 4).2.1 hanswers⟩

end RowView

end SegmentQuery
