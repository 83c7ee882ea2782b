import SegmentQuery.Broker.Reduce
import SegmentQuery.Proofs.Segment.Alike
import SegmentQuery.Proofs.Selection.Plans
/-!
# One order for segments, servers and the broker

An ORDER BY list orders the rows that a query fetches by its single-value
columns, item by item. A plan drops items that name an expression again,
which never decide anything; the broker finds the columns again by their
names. Both order rows in the same way, and in the same way for all
segments of one table.
-/


namespace SegmentQuery

namespace Query

/-- The expressions that a query fetches from a segment. -/
def fetched (q : Query) (s : MemorySegment) : List String :=
  Selection.fetchedExpressions q.select q.orderBy q.options.limit s.segment.columnNames

/-- The order of fetched rows: the single-value columns of the ORDER BY
list, in its sequence and directions, nulls last. -/
def rowOrder (q : Query) (s : MemorySegment) : RowOrder where
  keys := (q.orderBy.filter fun item => s.isSingle item.expression).map fun item =>
    ((q.fetched s).idxOf item.expression, item.direction)

end Query

/-! ## Items named again -/

namespace Selection

theorem nodup_eraseDups (xs : List String) : xs.eraseDups.Nodup := by
  match xs with
  | [] => exact List.nodup_nil
  | x :: xs =>
    rw [List.eraseDups_cons]
    refine List.nodup_cons.2 ⟨fun hmem => ?_, nodup_eraseDups _⟩
    have := List.mem_eraseDups.1 hmem
    simp at this
termination_by xs.length
decreasing_by
  have := List.length_filter_le (fun y => !y == x) xs
  simp only [List.length_cons]
  omega

variable {idx : String → Nat} {single : String → Bool} {left right : Row}

/-- The keys of some items. -/
def keysOf (idx : String → Nat) (single : String → Bool) (items : List OrderItem) :
    List (Nat × Direction) :=
  (items.filter fun item => single item.expression).map fun item =>
    (idx item.expression, item.direction)

/-- The direction of the first item that names an expression. -/
def firstDirection (items : List OrderItem) (expression : String) : Direction :=
  ((items.find? (·.expression == expression)).map OrderItem.direction).getD .asc

/-- The keys of some expressions, in the directions of the first items
that name them. -/
def firstKeys (idx : String → Nat) (single : String → Bool) (items : List OrderItem)
    (expressions : List String) : List (Nat × Direction) :=
  expressions.filterMap fun e => if single e then some (idx e, firstDirection items e) else none

theorem keysOf_cons (item : OrderItem) (rest : List OrderItem) :
    keysOf idx single (item :: rest) =
      if single item.expression then
        (idx item.expression, item.direction) :: keysOf idx single rest
      else keysOf idx single rest := by
  unfold keysOf
  rw [List.filter_cons]
  split <;> rfl

/-- Items with an expression that ties, or takes no part, decide
nothing. -/
theorem compareBy_filter_ne {e : String}
    (htie : single e = true →
      (RowOrder.cellAt left (idx e)).key = (RowOrder.cellAt right (idx e)).key)
    (items : List OrderItem) :
    RowOrder.compareBy left right (keysOf idx single (items.filter (·.expression != e))) =
      RowOrder.compareBy left right (keysOf idx single items) := by
  induction items with
  | nil => rfl
  | cons item rest ih =>
    rw [keysOf_cons]
    by_cases he : item.expression = e
    · have hdrop : (item.expression != e) = false := by simp [he]
      rw [List.filter_cons_of_neg (by rw [hdrop]; exact Bool.false_ne_true), ih]
      split
      · rename_i hsingle
        rw [he] at hsingle
        rw [RowOrder.compareBy, he, Cell.compareNullsLast_eq_iff.2 (htie hsingle)]
        rfl
      · rfl
    · have hkeep : (item.expression != e) = true := by simp [he]
      rw [@List.filter_cons_of_pos _ (fun item : OrderItem => item.expression != e) _ _ hkeep,
        keysOf_cons]
      split
      · rw [RowOrder.compareBy, RowOrder.compareBy, ih]
      · exact ih

/-- An expression other than the first item's has the direction that the
later items give it. -/
theorem firstDirection_cons {item : OrderItem} {rest : List OrderItem} {e : String}
    (h : e ≠ item.expression) :
    firstDirection (item :: rest) e =
      firstDirection (rest.filter (·.expression != item.expression)) e := by
  have hne : (item.expression == e) = false := by simpa using h.symm
  unfold firstDirection
  rw [List.find?_cons, hne, List.find?_filter]
  refine congrArg (fun found => (Option.map OrderItem.direction found).getD .asc) ?_
  refine congrArg (fun p => rest.find? p) (funext fun other => ?_)
  by_cases hother : other.expression = e
  · simp [hother, h]
  · simp [hother]

theorem firstKeys_cons (items : List OrderItem) (e : String) (expressions : List String) :
    firstKeys idx single items (e :: expressions) =
      if single e then (idx e, firstDirection items e) :: firstKeys idx single items expressions
      else firstKeys idx single items expressions := by
  unfold firstKeys
  rw [List.filterMap_cons]
  cases single e <;> rfl

/-- **Items that name an expression again decide nothing.** -/
theorem compareBy_firstKeys (idx : String → Nat) (single : String → Bool) (left right : Row)
    (items : List OrderItem) :
    RowOrder.compareBy left right
        (firstKeys idx single items (items.map OrderItem.expression).eraseDups) =
      RowOrder.compareBy left right (keysOf idx single items) := by
  match items with
  | [] => rfl
  | item :: rest =>
    have hrest := compareBy_firstKeys idx single left right
      (rest.filter (·.expression != item.expression))
    -- what is left of the expressions is those of the items that are left
    have hdups : ((item :: rest).map OrderItem.expression).eraseDups = item.expression ::
        ((rest.filter (·.expression != item.expression)).map OrderItem.expression).eraseDups := by
      rw [List.map_cons, List.eraseDups_cons, List.filter_map]
      rfl
    have hkeys : firstKeys idx single (item :: rest)
          ((rest.filter (·.expression != item.expression)).map OrderItem.expression).eraseDups =
        firstKeys idx single (rest.filter (·.expression != item.expression))
          ((rest.filter (·.expression != item.expression)).map OrderItem.expression).eraseDups := by
      refine List.filterMap_congr fun e he => ?_
      obtain ⟨other, hother, rfl⟩ := List.mem_map.1 (List.mem_eraseDups.1 he)
      have hne : other.expression ≠ item.expression := by simpa using (List.mem_filter.1 hother).2
      rw [firstDirection_cons hne]
    have hhead : firstDirection (item :: rest) item.expression = item.direction := by
      simp [firstDirection]
    rw [hdups, firstKeys_cons, keysOf_cons, hhead, hkeys]
    by_cases hsingle : single item.expression = true
    · rw [if_pos hsingle, if_pos hsingle, RowOrder.compareBy, RowOrder.compareBy, hrest]
      cases hcompare : Cell.compareNullsLast item.direction
          (RowOrder.cellAt left (idx item.expression))
          (RowOrder.cellAt right (idx item.expression)) with
      | lt => rfl
      | gt => rfl
      | eq =>
        rw [compareBy_filter_ne fun _ => Cell.compareNullsLast_eq_iff.1 hcompare]
    · rw [if_neg hsingle, if_neg hsingle, hrest]
      exact compareBy_filter_ne (fun h => absurd h hsingle) rest
termination_by items.length
decreasing_by
  have := List.length_filter_le (·.expression != item.expression) rest
  simp only [List.length_cons]
  omega

end Selection

namespace Query

/-- What is ordered by is fetched. -/
theorem mem_fetched {q : Query} {s : MemorySegment} (hlimit : 0 < q.options.limit)
    {item : OrderItem} (hitem : item ∈ q.orderBy) : item.expression ∈ q.fetched s := by
  refine List.mem_eraseDups.2 (List.mem_append_left _ ?_)
  rw [if_pos hlimit]
  exact List.mem_map_of_mem hitem

/-- The keys of ORDER BY look at single-value columns. -/
theorem single_of_rowOrder {q : Query} {s : MemorySegment} (hlimit : 0 < q.options.limit) :
    ∀ key ∈ (q.rowOrder s).keys, ∃ e, (q.fetched s)[key.1]? = some e ∧ s.isSingle e := by
  intro key hkey
  obtain ⟨item, hitem, rfl⟩ := List.mem_map.1 hkey
  obtain ⟨hitem, hsingle⟩ := List.mem_filter.1 hitem
  have hlt := List.idxOf_lt_length_of_mem (mem_fetched (s := s) hlimit hitem)
  refine ⟨item.expression, ?_, hsingle⟩
  rw [List.getElem?_eq_getElem hlt, List.getElem_idxOf hlt]

end Query

namespace Selection

/-! ## Plans -/

namespace Plan

variable {s : MemorySegment} {p : Plan} {order : RowOrder}

/-- The places of different expressions are where they stand. -/
theorem zipIdx_eq_map {expressions : List String} (hnodup : expressions.Nodup) (width : Nat) :
    (expressions.take width).zipIdx =
      (expressions.take width).map fun e => (e, expressions.idxOf e) := by
  apply List.ext_getElem (by simp)
  intro i hi _
  have hi' : i < expressions.length := by
    simp only [List.length_zipIdx, List.length_take] at hi
    omega
  simp only [List.getElem_zipIdx, List.getElem_map, List.getElem_take, Nat.zero_add,
    hnodup.idxOf_getElem i hi']

/-- **A plan orders rows as the ORDER BY list does.** -/
theorem compare_order {q : Query} (hlimit : 0 < q.options.limit)
    (hfetch : s.Fetchable (q.fetched s))
    (horder : (make s.segment q.select q.orderBy q.options).order = .ok order) :
    order.compare = (q.rowOrder s).compare := by
  have hp : (make s.segment q.select q.orderBy q.options).segment = s.segment := rfl
  obtain rfl := Except.ok.inj ((order_eq hp hfetch).symm.trans horder)
  funext left right
  have hkeys : keysOver s (make s.segment q.select q.orderBy q.options)
        ((make s.segment q.select q.orderBy q.options).expressions.take
          (make s.segment q.select q.orderBy q.options).orderWidth) 0 =
      firstKeys ((q.fetched s).idxOf ·) s.isSingle q.orderBy
        (q.orderBy.map OrderItem.expression).eraseDups := by
    have hnodup : (make s.segment q.select q.orderBy q.options).expressions.Nodup :=
      nodup_eraseDups _
    rw [← @take_orderWidth_make s.segment q.select q.orderBy q.options hlimit, keysOver,
      zipIdx_eq_map hnodup, List.filterMap_map]
    rfl
  rw [RowOrder.compare, RowOrder.compare, hkeys]
  exact compareBy_firstKeys _ _ left right q.orderBy

end Plan

end Selection

/-! ## Segments of one table -/

namespace MemorySegment

variable {s t : MemorySegment}

/-- Segments of one table have the same single-value columns. -/
theorem SameColumns.isSingle_eq (h : SameColumns s t) (name : String) :
    s.isSingle name = t.isSingle name := by
  have hsame := h name
  unfold ColumnSegment.metadata at hsame
  unfold isSingle
  cases hs : s.find name with
  | error e =>
    cases ht : t.find name with
    | error e' => rfl
    | ok c' =>
      rw [hs, ht] at hsame
      exact nomatch hsame
  | ok c =>
    cases ht : t.find name with
    | error e' =>
      rw [hs, ht] at hsame
      exact nomatch hsame
    | ok c' =>
      rw [hs, ht] at hsame
      exact (Prod.mk.inj (Option.some.inj hsame)).2

theorem SameColumns.fetched_eq (h : SameColumns s t) (q : Query) : q.fetched s = q.fetched t :=
  Selection.fetchedExpressions_congr h.perm_columnNames q.select q.orderBy q.options.limit

/-- **Segments of one table order rows in the same way.** -/
theorem SameColumns.rowOrder_eq (h : SameColumns s t) (q : Query) :
    q.rowOrder s = q.rowOrder t := by
  unfold Query.rowOrder
  rw [h.fetched_eq q]
  simp only [h.isSingle_eq]

end MemorySegment

/-! ## The broker -/

namespace Broker

variable {s : MemorySegment} {q : Query} {schema : Schema}

/-- A column's type is an array's when the column is not single-value. -/
theorem isArray_columnType {m : ColumnMetadata} {type : ColumnType} (h : m.columnType = .ok type) :
    type.isArray = !m.singleValue := by
  unfold ColumnMetadata.columnType at h
  cases hsingle : m.singleValue with
  | true =>
    rw [hsingle, if_pos rfl] at h
    rw [← Except.ok.inj h]
    exact ColumnType.isArray_ofStored m.type
  | false =>
    rw [hsingle, if_neg Bool.false_ne_true] at h
    cases hfound : ColumnType.ofStoredArray? m.type with
    | none =>
      rw [hfound] at h
      cases h
    | some type' =>
      rw [hfound] at h
      rw [← Except.ok.inj h]
      exact ColumnType.isArray_of_ofStoredArray? hfound

/-- The columns of a fetched schema bear the expressions' names, and are
arrays where those are not single-value. -/
theorem columns_schema {expressions : List String}
    (h : Selection.schema s.segment expressions = .ok schema) :
    List.Forall₂ (fun e (column : ResultColumn) =>
      column.name = e ∧ column.type.isArray = !s.isSingle e) expressions schema.columns := by
  refine (Selection.columns_of_schema h).imp fun e column hcolumn => ?_
  obtain ⟨hname, c, hfind, htype⟩ := hcolumn
  refine ⟨hname, ?_⟩
  rw [MemorySegment.isSingle, hfind]
  exact isArray_columnType htype

/-- A fetched expression is found where it stands. -/
theorem indexOf?_schema {expressions : List String} (hnodup : expressions.Nodup)
    (h : Selection.schema s.segment expressions = .ok schema) {e : String} (he : e ∈ expressions) :
    schema.indexOf? e = some (expressions.idxOf e) ∧
      ∃ column, schema.columns[expressions.idxOf e]? = some column ∧
        column.type.isArray = !s.isSingle e := by
  have hcolumns := columns_schema h
  have hlt := List.idxOf_lt_length_of_mem he
  have hat (i : Nat) (hi : i < expressions.length) :=
    hcolumns.get hi (hcolumns.length_eq ▸ hi)
  have hlt' : expressions.idxOf e < schema.columns.length := hcolumns.length_eq ▸ hlt
  obtain ⟨hname, harray⟩ := hat _ hlt
  simp only [List.get_eq_getElem, List.getElem_idxOf hlt] at hname harray
  refine ⟨List.findIdx?_eq_some_iff_getElem.2 ⟨hlt', by simp [hname], fun j hj => ?_⟩,
    _, List.getElem?_eq_getElem hlt', harray⟩
  -- an earlier column bears another name
  have hj' : j < expressions.length := by omega
  have hother := (hat j hj').1
  simp only [List.get_eq_getElem] at hother
  rw [hother, Bool.not_eq_true, beq_eq_false_iff_ne]
  rintro rfl
  rw [hnodup.idxOf_getElem j hj'] at hj
  omega

/-- **The broker finds the columns of the ORDER BY list again.** -/
theorem selectionOrder_eq (hlimit : 0 < q.options.limit)
    (hschema : Selection.schema s.segment (q.fetched s) = .ok schema) :
    selectionOrder q.orderBy schema = q.rowOrder s := by
  have hmem : ∀ item ∈ q.orderBy, item.expression ∈ q.fetched s := fun _ hitem =>
    Query.mem_fetched hlimit hitem
  unfold selectionOrder Query.rowOrder
  refine congrArg RowOrder.mk ?_
  show _ = Selection.keysOf ((q.fetched s).idxOf ·) s.isSingle q.orderBy
  generalize q.orderBy = items at hmem
  induction items with
  | nil => rfl
  | cons item rest ih =>
    obtain ⟨hitem, hrest⟩ := List.forall_mem_cons.1 hmem
    obtain ⟨hindex, column, hcolumn, harray⟩ :=
      indexOf?_schema (Selection.nodup_eraseDups _) hschema hitem
    rw [List.filterMap_cons, Selection.keysOf_cons]
    simp only [hindex, bind, Option.bind_some, hcolumn, harray]
    cases s.isSingle item.expression with
    | true => exact congrArg (_ :: ·) (ih hrest)
    | false => exact ih hrest

end Broker

end SegmentQuery
