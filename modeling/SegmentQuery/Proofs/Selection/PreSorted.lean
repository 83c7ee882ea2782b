import SegmentQuery.Proofs.Selection.Strategies
/-!
# Segments that are declared sorted

Over a segment that is declared sorted a plan trusts the stored order and
takes the documents in front. The stored order does not know of nulls,
which go last: the rows in front are the first ones in order exactly when
no null among them stands ahead of a value that was cut off.
-/


namespace SegmentQuery

open Std (TransCmp)

namespace MemorySegment

/-- The stored values of a column do not descend in document order. -/
def StoredAscending (s : MemorySegment) (name : String) : Prop :=
  ∀ x y, x < y → y < s.numDocs → ((s.cell false x name).compare (s.cell false y name)).isLE

/-- Without null handling no cell of a column is null. -/
theorem cell_ne_null {s : MemorySegment} {name : String} {c : MemoryColumn}
    (hfind : s.find name = .ok c) (hread : c.column.Readable) {document : Nat}
    (hlt : document < s.numDocs) : s.cell false document name ≠ .null := by
  have hlen := s.length_columns c (find_name hfind).1
  rw [cell, hfind]
  obtain ⟨name', role, ⟨values, nulls⟩⟩ := c
  simp only at hread hlen ⊢
  cases values with
  | single t vs =>
    have hlt' : document < vs.length := by rw [show vs.length = s.numDocs from hlen]; exact hlt
    simp only [Column.cellOf, Bool.false_and, Bool.false_eq_true, if_false,
      List.getElem?_eq_getElem hlt', Option.map_some, Option.getD_some]
    cases t <;> exact Cell.noConfusion
  | multi t vs =>
    have hlt' : document < vs.length := by rw [show vs.length = s.numDocs from hlen]; exact hlt
    obtain ⟨toCell, htoCell⟩ := Option.isSome_iff_exists.1 hread
    simp only [Column.cellOf, htoCell, List.getElem?_eq_getElem hlt', Option.map_some,
      Option.bind_some, Option.getD_some]
    cases t <;> simp only [StoredType.arrayCell?, Option.some.injEq, reduceCtorEq] at htoCell <;>
      subst htoCell <;> exact Cell.noConfusion

/-- A cell that is not null is the stored value. -/
theorem cell_eq_stored {s : MemorySegment} {nullHandling : Bool} {document : Nat} {name : String}
    (h : s.cell nullHandling document name ≠ .null) :
    s.cell nullHandling document name = s.cell false document name := by
  unfold cell at h ⊢
  cases hfind : s.find name with
  | error e => rfl
  | ok c =>
    simp only [hfind] at h ⊢
    obtain ⟨name', role, ⟨values, nulls⟩⟩ := c
    cases values with
    | multi t vs => rfl
    | single t vs =>
      simp only [Column.cellOf] at h ⊢
      by_cases hnull : (nullHandling && Column.isNull ⟨.single t vs, nulls⟩ document) = true
      · rw [if_pos hnull] at h
        exact absurd rfl h
      · rw [if_neg hnull]
        rfl

end MemorySegment

namespace Selection

namespace Plan

variable {s : MemorySegment} {p : Plan} {order : RowOrder}

/-- A null stands ahead of a value that was cut off: some row kept is
null under a key where some row cut off is not, and they tie under all
keys before that one. -/
def NullAhead (order : RowOrder) (kept cut : List Row) : Prop :=
  ∃ x ∈ kept, ∃ y ∈ cut, ∃ before key after, order.keys = before ++ key :: after ∧
    (∀ k ∈ before, (RowOrder.cellAt x k.1).key = (RowOrder.cellAt y k.1).key) ∧
    RowOrder.cellAt x key.1 = .null ∧ RowOrder.cellAt y key.1 ≠ .null

variable {segment : Segment} {select : List String} {items : List OrderItem} {options : Options}

/-- A plan over a segment that is declared sorted orders everything
ascending. -/
theorem directionOf_preSorted (hstrategy : p.strategy = .preSorted) (e : String) :
    p.directionOf e = .asc := by
  have hall : (p.orderItems.all fun item =>
      item.direction.isAsc && p.segment.isSortedOn item.expression) = true := by
    unfold strategy at hstrategy
    by_contra hnot
    rw [if_neg hnot] at hstrategy
    split at hstrategy <;> exact absurd hstrategy (by decide)
  rw [directionOf]
  cases hfind : p.orderItems.find? (·.expression == e) with
  | none => rfl
  | some item =>
    have hitem := List.all_eq_true.1 hall item (List.mem_of_find?_eq_some hfind)
    have hasc : item.direction.isAsc := (Bool.and_eq_true_iff.1 hitem).1
    cases hd : item.direction with
    | asc => simp [hd]
    | desc => exact absurd (hd ▸ hasc) (by decide)

/-- Each key of a query's plan looks at a column of the ORDER BY list. -/
theorem cellAt_key (hlimit : 0 < options.limit)
    (hfetch : s.Fetchable (make s.segment select items options).expressions)
    (horder : (make s.segment select items options).order = .ok order)
    {key : Nat × Direction} (hkey : key ∈ order.keys) :
    ∃ item ∈ items, key.2 = (make s.segment select items options).directionOf item.expression ∧
      (∃ c, s.find item.expression = .ok c ∧ c.column.Readable) ∧
      ∀ d, RowOrder.cellAt (s.row options.nullHandling
          (make s.segment select items options).expressions d) key.1 =
        s.cell options.nullHandling d item.expression := by
  have htake := @take_orderWidth_make s.segment select items options hlimit
  generalize hp : make s.segment select items options = p at hfetch horder htake ⊢
  obtain rfl := Except.ok.inj ((order_eq (by rw [← hp]; rfl) hfetch).symm.trans horder)
  obtain ⟨hlt, -, hdirection⟩ := mem_keysOver hkey
  have hmem := List.getElem_mem hlt
  obtain ⟨e, he⟩ : ∃ e, (p.expressions.take p.orderWidth)[key.1] = e := ⟨_, rfl⟩
  rw [he] at hmem hdirection
  have hitem := hmem
  rw [htake, List.mem_eraseDups] at hitem
  obtain ⟨item, hitem, hexpression⟩ := List.mem_map.1 hitem
  have hlt' : key.1 < p.expressions.length := by
    rw [List.length_take] at hlt
    omega
  refine ⟨item, hitem, by rw [hexpression, hdirection], ?_, fun d => ?_⟩
  · rw [hexpression]
    exact hfetch _ (List.mem_of_mem_take hmem)
  · rw [RowOrder.cellAt, MemorySegment.row, List.getElem?_map, List.getElem?_eq_getElem hlt',
      hexpression, ← he, List.getElem_take]
    rfl

/-- In stored order, a row goes after a later one exactly where it is
null under the key that tells them apart. -/
theorem compare_eq_gt_iff (hlimit : 0 < options.limit)
    (hstrategy : (make s.segment select items options).strategy = .preSorted)
    (hstored : ∀ item ∈ items, s.StoredAscending item.expression)
    (hfetch : s.Fetchable (make s.segment select items options).expressions)
    (horder : (make s.segment select items options).order = .ok order) {x y : Nat} (hxy : x < y)
    (hy : y < s.numDocs) :
    let row := s.row options.nullHandling (make s.segment select items options).expressions
    order.compare (row x) (row y) = .gt ↔
      ∃ before key after, order.keys = before ++ key :: after ∧
        (∀ k ∈ before, (RowOrder.cellAt (row x) k.1).key = (RowOrder.cellAt (row y) k.1).key) ∧
        RowOrder.cellAt (row x) key.1 = .null ∧ RowOrder.cellAt (row y) key.1 ≠ .null := by
  intro row
  -- under one key: null against a value, since values come in stored order
  have hkeygt : ∀ key ∈ order.keys,
      (Cell.compareNullsLast key.2 (RowOrder.cellAt (row x) key.1) (RowOrder.cellAt (row y) key.1) =
          .gt ↔
        RowOrder.cellAt (row x) key.1 = .null ∧ RowOrder.cellAt (row y) key.1 ≠ .null) := by
    intro key hkey
    obtain ⟨item, hitem, hdirection, -, hcell⟩ := cellAt_key hlimit hfetch horder hkey
    rw [directionOf_preSorted hstrategy] at hdirection
    constructor
    · intro hgt
      by_cases hnull : RowOrder.cellAt (row y) key.1 = .null
      · rw [hnull] at hgt
        by_cases hx : RowOrder.cellAt (row x) key.1 = .null
        · exact absurd hgt (by rw [hx, Cell.compareNullsLast_null_null]; decide)
        · exact absurd hgt (by rw [Cell.compareNullsLast_null_right hx]; decide)
      · refine ⟨?_, hnull⟩
        by_contra hx
        rw [Cell.compareNullsLast_of_values hx hnull, hdirection, hcell x, hcell y] at hgt
        rw [hcell] at hx hnull
        rw [MemorySegment.cell_eq_stored hx, MemorySegment.cell_eq_stored hnull] at hgt
        have hle := hstored item hitem x y hxy hy
        rw [show (s.cell false x item.expression).compare (s.cell false y item.expression) = .gt
          from hgt] at hle
        exact absurd hle (by decide)
    · rintro ⟨hx, hy⟩
      rw [hx]
      exact Cell.compareNullsLast_null_left hy
  rw [RowOrder.compare, RowOrder.compareBy_eq_gt_iff]
  constructor
  · rintro ⟨before, key, after, hsplit, hties, hgt⟩
    exact ⟨before, key, after, hsplit, hties, (hkeygt key (by rw [hsplit]; simp)).1 hgt⟩
  · rintro ⟨before, key, after, hsplit, hties, hgt⟩
    exact ⟨before, key, after, hsplit, hties, (hkeygt key (by rw [hsplit]; simp)).2 hgt⟩

/-- Every document in front comes before every one behind it. -/
theorem lt_of_mem_take_drop {keep x y : Nat} (hx : x ∈ s.matching.take keep)
    (hy : y ∈ s.matching.drop keep) : x < y ∧ y < s.numDocs := by
  have hsorted := s.matching_ascending
  rw [← List.take_append_drop keep s.matching] at hsorted
  exact ⟨(List.pairwise_append.1 hsorted).2.2 x hx y hy,
    MemorySegment.lt_of_mem_matching (List.mem_of_mem_drop hy)⟩

/-- In stored order, the rows in front are the best ones exactly when no
null stands ahead. -/
theorem front_isLE_iff (hlimit : 0 < options.limit)
    (hstrategy : (make s.segment select items options).strategy = .preSorted)
    (hstored : ∀ item ∈ items, s.StoredAscending item.expression)
    (hfetch : s.Fetchable (make s.segment select items options).expressions)
    (horder : (make s.segment select items options).order = .ok order) (keep : Nat) :
    let rows := rowsOf s (make s.segment select items options)
    (∀ a ∈ rows (s.matching.take keep), ∀ b ∈ rows (s.matching.drop keep),
        (order.compare a b).isLE) ↔
      ¬ NullAhead order (rows (s.matching.take keep)) (rows (s.matching.drop keep)) := by
  intro rows
  constructor
  · rintro hle ⟨a, ha, b, hb, hahead⟩
    have hab := hle a ha b hb
    obtain ⟨x, hx, rfl⟩ := List.mem_map.1 ha
    obtain ⟨y, hy, rfl⟩ := List.mem_map.1 hb
    obtain ⟨hxy, hlt⟩ := lt_of_mem_take_drop hx hy
    have hgt := (compare_eq_gt_iff hlimit hstrategy hstored hfetch horder hxy hlt).2 hahead
    exact Ordering.isLE_iff_ne_gt.1 hab hgt
  · intro hnone a ha b hb
    rw [Ordering.isLE_iff_ne_gt]
    intro hgt
    refine hnone ⟨a, ha, b, hb, ?_⟩
    obtain ⟨x, hx, rfl⟩ := List.mem_map.1 ha
    obtain ⟨y, hy, rfl⟩ := List.mem_map.1 hb
    obtain ⟨hxy, hlt⟩ := lt_of_mem_take_drop hx hy
    exact (compare_eq_gt_iff hlimit hstrategy hstored hfetch horder hxy hlt).1 hgt

/-- Without null handling no null stands ahead of anything. -/
theorem not_nullAhead (hlimit : 0 < options.limit) (hnulls : options.nullHandling = false)
    (hfetch : s.Fetchable (make s.segment select items options).expressions)
    (horder : (make s.segment select items options).order = .ok order) (keep : Nat)
    (cut : List Row) :
    ¬ NullAhead order (rowsOf s (make s.segment select items options) (s.matching.take keep))
      cut := by
  rintro ⟨a, ha, b, -, before, key, after, hsplit, -, hnull, -⟩
  obtain ⟨x, hx, rfl⟩ := List.mem_map.1 ha
  obtain ⟨item, -, -, ⟨c, hfind, hread⟩, hcell⟩ :=
    cellAt_key hlimit hfetch horder (show key ∈ order.keys by rw [hsplit]; simp)
  have hlt := MemorySegment.lt_of_mem_matching (List.mem_of_mem_take hx)
  refine MemorySegment.cell_ne_null hfind hread hlt ?_
  rw [← hnulls, ← hcell]
  exact hnull

/-- **What is taken from the front is in front exactly when no null
stands ahead of what is left.** Over a segment that is declared sorted on
every ORDER BY column, all of them ascending, and that stores its values
so, the rows that a plan keeps are the first in the NULLS LAST order, as
far as their key tuples tell, exactly where no null among them stands
ahead of a value that was cut off; without null handling that is
always so. -/
theorem preSorted_agrees_iff (s : MemorySegment) (select : List String) (items : List OrderItem)
    (options : Options) (hlimit : 0 < options.limit)
    (hstrategy : (make s.segment select items options).strategy = .preSorted)
    (hstored : ∀ item ∈ items, s.StoredAscending item.expression) :
    let p := make s.segment select items options
    let keep := options.rowsToKeep
    ∀ schema, Selection.schema s.segment p.expressions = .ok schema →
      ∃ order rows stats, p.order = .ok order ∧
        p.run.value = .ok ⟨schema, .orderedSelection rows, stats, []⟩ ∧
        (rows.sorted.map order.keyTuple =
            ((order.sort (rowsOf s p s.matching)).map order.keyTuple).take keep ↔
          ¬ NullAhead order (rowsOf s p (s.matching.take keep))
            (rowsOf s p (s.matching.drop keep))) ∧
        (options.nullHandling = false → ¬ NullAhead order (rowsOf s p (s.matching.take keep))
          (rowsOf s p (s.matching.drop keep))) := by
  intro p keep schema hschema
  have hfetch : s.Fetchable p.expressions := fetchable_iff.2 ⟨schema, hschema⟩
  obtain ⟨order, stats, horder, hrun⟩ :=
    run_front (p := p) (s := s) rfl (rowsToKeep_pos hlimit) hstrategy hschema
  refine ⟨order, _, stats, horder, hrun, ?_, fun hnulls => ?_⟩
  · have hall : rowsOf s p (s.matching.take keep) ++ rowsOf s p (s.matching.drop keep) =
        rowsOf s p s.matching := by
      rw [rowsOf, rowsOf, ← List.map_append, List.take_append_drop, rowsOf]
    have hlen : (rowsOf s p (s.matching.take keep)).length =
        min keep (rowsOf s p s.matching).length := by
      simp [rowsOf]
    refine Iff.trans ?_ (front_isLE_iff hlimit hstrategy hstored hfetch horder keep)
    refine Iff.trans ?_ (IsBest.map_key_sorted_iff order.compare_eq_iff (hall.symm ▸ hlen))
    rw [(OrderedRows.best_foldl_put rfl _ _).map_keyTuple_sorted, List.take_of_length_le, hall]
    · rfl
    · rw [List.length_map, (RowOrder.sort_perm order _).length_eq]
      exact (hlen.le).trans (Nat.min_le_left _ _)
  · exact not_nullAhead hlimit hnulls hfetch horder keep _

/-- Two documents in stored order, the first of them null. -/
def nullFirst : MemorySegment where
  name := "nullFirst"
  numDocs := 2
  columns := [⟨"a", .dimension, ⟨.single .int [0, 1], some ⟨[0], by decide⟩⟩⟩]
  blockSize := 2
  sortedColumns := ["a"]
  filter := none
  numDocs_le := by decide
  length_columns := by decide
  names_nodup := by decide
  blockSize_pos := Nat.two_pos

/-- A null in front stands ahead of the value behind it, and the row kept
is not the first in order. -/
theorem preSorted_agrees_iff_nullFirst :
    let p := make nullFirst.segment ["a"] [⟨"a", .asc⟩] { limit := 1, nullHandling := true }
    p.strategy = .preSorted ∧ nullFirst.StoredAscending "a" ∧
      ∃ order schema rows stats, p.order = .ok order ∧
        p.run.value = .ok ⟨schema, .orderedSelection rows, stats, []⟩ ∧
        rows.sorted.map order.keyTuple ≠
          ((order.sort (rowsOf nullFirst p nullFirst.matching)).map order.keyTuple).take 1 := by
  intro p
  have hstrategy : p.strategy = .preSorted := by decide
  have hstored : nullFirst.StoredAscending "a" := by
    intro x y hxy hy
    have hy' : y < 2 := hy
    obtain ⟨rfl, rfl⟩ : x = 0 ∧ y = 1 := by omega
    decide
  have hschema : Selection.schema nullFirst.segment p.expressions =
      .ok ⟨[⟨"a", .int, .dimension⟩]⟩ := by decide
  obtain ⟨order, rows, stats, horder, hrun, hagree, -⟩ :=
    preSorted_agrees_iff nullFirst ["a"] [⟨"a", .asc⟩] { limit := 1, nullHandling := true }
      (by decide) hstrategy (by simpa using hstored) _ hschema
  refine ⟨hstrategy, hstored, order, _, rows, stats, horder, hrun, fun heq => hagree.1 heq ?_⟩
  have hkeys : p.order = .ok ⟨[(0, .asc)]⟩ := by decide
  obtain rfl := Except.ok.inj (hkeys.symm.trans horder)
  exact ⟨[.null], by decide, [.int 1], by decide, [], (0, .asc), [], rfl, by simp, rfl, by decide⟩

end Plan

end Selection

end SegmentQuery
