import SegmentQuery.Operator.Selection
import SegmentQuery.Proofs.Order.Rows
import SegmentQuery.Proofs.Segment.Scans
/-!
# Plans of ordered selections

A plan whose schema is accepted fetches columns that rows can be read
from, and its order looks only at single-value columns among the ORDER BY
expressions.
-/


namespace SegmentQuery

namespace MemorySegment

/-- Whether a name is that of a single-value column. -/
def isSingle (s : MemorySegment) (name : String) : Bool :=
  match s.find name with
  | .ok c => c.column.isSingleValue
  | .error _ => false

/-- A single-value column's cells are no arrays. -/
theorem isMultiValue_cell {s : MemorySegment} {name : String} (h : s.isSingle name)
    (nullHandling : Bool) (document : Nat) :
    (s.cell nullHandling document name).isMultiValue = false := by
  unfold isSingle at h
  unfold cell
  cases hfind : s.find name with
  | error e => rfl
  | ok c =>
    simp only [hfind] at h ⊢
    obtain ⟨name', role, ⟨values, nulls⟩⟩ := c
    cases values with
    | multi t vs => exact absurd h (by simp [Column.isSingleValue, ColumnValues.isSingleValue])
    | single t vs =>
      simp only [Column.cellOf]
      split
      · rfl
      · cases vs[document]? with
        | none => rfl
        | some v => cases t <;> rfl

end MemorySegment

namespace Selection

/-- The types with array cells are those with array columns. -/
theorem isSome_arrayCell? (t : StoredType) :
    t.arrayCell?.isSome = (ColumnType.ofStoredArray? t).isSome := by
  cases t <;> rfl

/-- A column has a result type exactly when cells can hold it. -/
theorem readable_iff {c : Column} {name : String} {role : FieldKind} :
    c.Readable ↔ ∃ type,
      (ColumnMetadata.mk name c.type c.isSingleValue role).columnType = .ok type := by
  obtain ⟨values, nulls⟩ := c
  cases values with
  | single t vs => exact ⟨fun _ => ⟨_, rfl⟩, fun _ => trivial⟩
  | multi t vs =>
    have hsome : (ColumnMetadata.mk name t false role).columnType =
        (ColumnType.ofStoredArray? t).elim (.error (.unsupportedType .resultColumn t false)) .ok := by
      rw [ColumnMetadata.columnType]
      cases ColumnType.ofStoredArray? t <;> rfl
    show t.arrayCell?.isSome ↔ ∃ type, (ColumnMetadata.mk name t false role).columnType = .ok type
    rw [isSome_arrayCell?, hsome]
    cases ColumnType.ofStoredArray? t <;> simp

/-- Where the schema is accepted every expression can be fetched. -/
theorem fetchable_iff {s : MemorySegment} {expressions : List String} :
    s.Fetchable expressions ↔ ∃ schema, Selection.schema s.segment expressions = .ok schema := by
  have hschema : (∃ schema, Selection.schema s.segment expressions = .ok schema) ↔
      ∃ columns, (expressions.mapM fun e => do
        let metadata ← s.metadata e
        return { name := e, type := ← metadata.columnType, role := metadata.role : ResultColumn }) =
          .ok columns := by
    simp only [Selection.schema, Except.bind_eq_ok]
    constructor
    · rintro ⟨_, columns, h, -⟩
      exact ⟨columns, h⟩
    · rintro ⟨columns, h⟩
      exact ⟨⟨columns⟩, columns, h, rfl⟩
  rw [hschema, Except.exists_mapM_ok]
  refine forall₂_congr fun e _ => ?_
  simp only [Except.bind_eq_ok, ColumnSegment.metadata, Except.map_eq_ok]
  constructor
  · rintro ⟨c, hfind, hread⟩
    obtain ⟨type, htype⟩ := readable_iff.1 hread
    exact ⟨_, _, ⟨c, hfind, rfl⟩, type, htype, rfl⟩
  · rintro ⟨_, _, ⟨c, hfind, rfl⟩, type, htype, -⟩
    exact ⟨c, hfind, readable_iff.2 ⟨type, htype⟩⟩

/-- **A schema has a column for each expression**, with its name and the
type of the segment's column. -/
theorem columns_of_schema {s : MemorySegment} {expressions : List String} {output : Schema}
    (h : schema s.segment expressions = .ok output) :
    List.Forall₂ (fun e (column : ResultColumn) => column.name = e ∧ ∃ c, s.find e = .ok c ∧
      (ColumnMetadata.mk c.name c.column.type c.column.isSingleValue c.role).columnType =
        .ok column.type) expressions output.columns := by
  obtain ⟨columns, hcolumns, houtput⟩ := Except.bind_eq_ok.1 h
  obtain rfl := Except.ok.inj houtput
  refine (Except.mapM_eq_ok.1 hcolumns).imp fun e column hcolumn => ?_
  obtain ⟨metadata, hmetadata, hcolumn⟩ := Except.bind_eq_ok.1 hcolumn
  obtain ⟨type, htype, hcolumn⟩ := Except.bind_eq_ok.1 hcolumn
  obtain rfl := Except.ok.inj hcolumn
  obtain ⟨c, hfind, rfl⟩ := Except.map_eq_ok.1 hmetadata
  exact ⟨rfl, c, hfind, htype⟩

namespace Plan

/-! ## The order of a plan -/

variable {s : MemorySegment} {p : Plan}

/-- The keys over some expressions: one for each single-value column, in
the direction that ORDER BY gives it. -/
def keysOver (s : MemorySegment) (p : Plan) (expressions : List String) (start : Nat) :
    List (Nat × Direction) :=
  (expressions.zipIdx start).filterMap fun (e, index) =>
    if s.isSingle e then some (index, p.directionOf e) else none

theorem keysFrom_eq (hp : p.segment = s.segment) {expressions : List String}
    (hfind : ∀ e ∈ expressions, ∃ c, s.find e = .ok c) (start : Nat) :
    p.keysFrom expressions start = .ok (keysOver s p expressions start) := by
  induction expressions generalizing start with
  | nil => rfl
  | cons e rest ih =>
    obtain ⟨⟨c, hc⟩, hrest⟩ := List.forall_mem_cons.1 hfind
    have hmeta : p.segment.metadata e =
        .ok ⟨c.name, c.column.type, c.column.isSingleValue, c.role⟩ := by
      rw [hp]
      show s.metadata e = _
      rw [ColumnSegment.metadata, hc]
      rfl
    have hsingle : s.isSingle e = c.column.isSingleValue := by rw [MemorySegment.isSingle, hc]
    have hcons : keysOver s p (e :: rest) start =
        if c.column.isSingleValue then
          (start, p.directionOf e) :: keysOver s p rest (start + 1)
        else keysOver s p rest (start + 1) := by
      rw [keysOver, List.zipIdx_cons, List.filterMap_cons]
      simp only [hsingle]
      cases c.column.isSingleValue <;> rfl
    rw [keysFrom, hmeta, ih hrest (start + 1), hcons]
    rfl

/-- **The order of a plan**: its keys look at the single-value columns
among the ORDER BY expressions. -/
theorem order_eq (hp : p.segment = s.segment) (hfetch : s.Fetchable p.expressions) :
    p.order = .ok ⟨keysOver s p (p.expressions.take p.orderWidth) 0⟩ := by
  rw [order, keysFrom_eq hp fun e he => ?_]
  · rfl
  · obtain ⟨c, hc, -⟩ := hfetch e (List.mem_of_mem_take he)
    exact ⟨c, hc⟩

theorem mem_keysOver {expressions : List String} {key : Nat × Direction}
    (h : key ∈ keysOver s p expressions 0) :
    ∃ (hlt : key.1 < expressions.length), s.isSingle expressions[key.1] ∧
      key.2 = p.directionOf expressions[key.1] := by
  obtain ⟨⟨e, index⟩, hmem, hkey⟩ := List.mem_filterMap.1 h
  rw [List.mem_zipIdx_iff_getElem?] at hmem
  simp only [Option.ite_none_right_eq_some, Option.some.injEq] at hkey
  obtain ⟨hsingle, rfl⟩ := hkey
  obtain ⟨hlt, hget⟩ := List.getElem?_eq_some_iff.1 hmem
  exact ⟨hlt, by rw [hget]; exact hsingle, by rw [hget]⟩

/-- The keys look at single-value columns. -/
theorem single_of_order {order : RowOrder} (hp : p.segment = s.segment)
    (hfetch : s.Fetchable p.expressions) (horder : p.order = .ok order) :
    ∀ key ∈ order.keys, ∃ e, p.expressions[key.1]? = some e ∧ s.isSingle e := by
  obtain rfl := Except.ok.inj ((order_eq hp hfetch).symm.trans horder)
  intro key hkey
  obtain ⟨hlt, hsingle, -⟩ := mem_keysOver hkey
  have hlt' : key.1 < p.expressions.length := by
    have := hlt
    rw [List.length_take] at this
    omega
  refine ⟨_, ?_, hsingle⟩
  rw [List.getElem_take]
  exact List.getElem?_eq_getElem hlt'

/-- An order whose keys look at single-value columns of a segment accepts
every row of the segment. -/
theorem validate_of_single {order : RowOrder} {expressions : List String}
    (h : ∀ key ∈ order.keys, ∃ e, expressions[key.1]? = some e ∧ s.isSingle e) (nullHandling : Bool)
    (document : Nat) : order.validate (s.row nullHandling expressions document) = .ok () := by
  refine RowOrder.validate_ok fun key hkey => ?_
  obtain ⟨e, hget, hsingle⟩ := h key hkey
  rw [RowOrder.cellAt, MemorySegment.row, List.getElem?_map, hget]
  exact MemorySegment.isMultiValue_cell hsingle nullHandling document

theorem validate_row {order : RowOrder} (hp : p.segment = s.segment)
    (hfetch : s.Fetchable p.expressions) (horder : p.order = .ok order) (nullHandling : Bool)
    (document : Nat) : order.validate (s.row nullHandling p.expressions document) = .ok () :=
  validate_of_single (single_of_order hp hfetch horder) nullHandling document

/-! ## Plans of queries -/

/-- Listing further expressions keeps the different ones that came
first. -/
theorem take_length_eraseDups (first more : List String) :
    ((first ++ more).eraseDups).take first.eraseDups.length = first.eraseDups := by
  rw [List.eraseDups_append]
  exact List.take_left' rfl

variable {segment : Segment} {select : List String} {items : List OrderItem} {options : Options}

/-- The leading expressions of a query's plan are the ORDER BY ones, each
once. -/
theorem take_orderWidth_make (hlimit : 0 < options.limit) :
    (make segment select items options).expressions.take
        (make segment select items options).orderWidth =
      (items.map OrderItem.expression).eraseDups := by
  simp only [make, fetchedExpressions, if_pos hlimit]
  have hnone : outputColumns [] [] = [] := rfl
  rw [hnone, List.append_nil]
  exact take_length_eraseDups _ _

theorem orderWidth_make_le :
    (make segment select items options).orderWidth ≤
      (make segment select items options).expressions.length := by
  simp only [make, fetchedExpressions]
  have hnone : outputColumns [] [] = [] := rfl
  rw [hnone, List.append_nil, List.eraseDups_append, List.length_append]
  exact Nat.le_add_right _ _

/-- A positive limit keeps some row. -/
theorem rowsToKeep_pos (hlimit : 0 < options.limit) : 0 < options.rowsToKeep := by
  have hmax : 0 < Counter.max64 := by decide
  rw [Options.rowsToKeep, Counter.add]
  omega

end Plan

end Selection

end SegmentQuery
