import SegmentQuery.Proofs.Order.Cells
import SegmentQuery.Proofs.Order.Sorting
import SegmentQuery.Selection.OrderedRows
/-!
# The order of rows

A row order is a total preorder for any list of keys, with the rows that
have no value for a key last. Rows tie exactly when the keys see the same
cells, up to the scale of decimals: when their key tuples are equal. A row
order looks at nothing but the cells its keys name.
-/


namespace SegmentQuery

open Std (TransCmp OrientedCmp ReflCmp)

namespace RowOrder

/-- What the keys of an order see of a row. -/
def keyTuple (order : RowOrder) (row : Row) : List Key :=
  order.keys.map fun key => (cellAt row key.1).key

theorem compareBy_swap (left right : Row) (keys : List (Nat × Direction)) :
    compareBy left right keys = (compareBy right left keys).swap := by
  induction keys with
  | nil => rfl
  | cons key rest ih =>
    simp only [compareBy]
    rw [Ordering.swap_then, ← Cell.compareNullsLast_swap, ← ih]

/-- Rows tie where the keys see cells with the same keys. -/
theorem compareBy_eq_iff {left right : Row} {keys : List (Nat × Direction)} :
    compareBy left right keys = .eq ↔
      ∀ key ∈ keys, (cellAt left key.1).key = (cellAt right key.1).key := by
  induction keys with
  | nil => simp [compareBy]
  | cons key rest ih =>
    simp only [compareBy, Ordering.then_eq_eq, Cell.compareNullsLast_eq_iff, ih,
      List.forall_mem_cons]

theorem isLE_compareBy_cons {left right : Row} {key : Nat × Direction}
    {rest : List (Nat × Direction)} :
    (compareBy left right (key :: rest)).isLE ↔
      Cell.compareNullsLast key.2 (cellAt left key.1) (cellAt right key.1) = .lt ∨
        Cell.compareNullsLast key.2 (cellAt left key.1) (cellAt right key.1) = .eq ∧
          (compareBy left right rest).isLE := by
  simp only [compareBy]
  cases Cell.compareNullsLast key.2 (cellAt left key.1) (cellAt right key.1) <;>
    simp [Ordering.then]

theorem isLE_compareBy_trans {a b c : Row} {keys : List (Nat × Direction)}
    (hab : (compareBy a b keys).isLE) (hbc : (compareBy b c keys).isLE) :
    (compareBy a c keys).isLE := by
  induction keys with
  | nil => rfl
  | cons key rest ih =>
    rw [isLE_compareBy_cons] at hab hbc ⊢
    rcases hab with hab | ⟨hab, hab'⟩
    · left
      rcases hbc with hbc | ⟨hbc, -⟩
      · exact TransCmp.lt_trans hab hbc
      · exact TransCmp.lt_of_lt_of_eq hab hbc
    · rcases hbc with hbc | ⟨hbc, hbc'⟩
      · exact .inl (TransCmp.lt_of_eq_of_lt hab hbc)
      · exact .inr ⟨TransCmp.eq_trans hab hbc, ih hab' hbc'⟩

instance (order : RowOrder) : TransCmp order.compare where
  eq_swap := compareBy_swap _ _ _
  isLE_trans := isLE_compareBy_trans

/-- **Rows tie exactly when their key tuples are the same.** -/
theorem compare_eq_iff (order : RowOrder) (left right : Row) :
    order.compare left right = .eq ↔ order.keyTuple left = order.keyTuple right := by
  rw [compare, compareBy_eq_iff, keyTuple, keyTuple, List.map_inj_left]

/-- An order looks only at the cells its keys name. -/
theorem compareBy_congr {left right left' right' : Row} {keys : List (Nat × Direction)}
    (hl : ∀ key ∈ keys, cellAt left key.1 = cellAt left' key.1)
    (hr : ∀ key ∈ keys, cellAt right key.1 = cellAt right' key.1) :
    compareBy left right keys = compareBy left' right' keys := by
  induction keys with
  | nil => rfl
  | cons key rest ih =>
    obtain ⟨hl0, hl⟩ := List.forall_mem_cons.1 hl
    obtain ⟨hr0, hr⟩ := List.forall_mem_cons.1 hr
    simp only [compareBy, hl0, hr0, ih hl hr]

/-- One row goes after another where the first key that tells them apart
says so. -/
theorem compareBy_eq_gt_iff {left right : Row} {keys : List (Nat × Direction)} :
    compareBy left right keys = .gt ↔ ∃ before key after, keys = before ++ key :: after ∧
      (∀ k ∈ before, (cellAt left k.1).key = (cellAt right k.1).key) ∧
      Cell.compareNullsLast key.2 (cellAt left key.1) (cellAt right key.1) = .gt := by
  induction keys with
  | nil => simp [compareBy]
  | cons key rest ih =>
    rw [compareBy, Ordering.then_eq_gt, ih]
    constructor
    · rintro (hgt | ⟨heq, before, key', after, rfl, hties, hgt⟩)
      · exact ⟨[], key, rest, rfl, by simp, hgt⟩
      · refine ⟨key :: before, key', after, rfl, ?_, hgt⟩
        exact List.forall_mem_cons.2 ⟨Cell.compareNullsLast_eq_iff.1 heq, hties⟩
    · rintro ⟨before, key', after, hsplit, hties, hgt⟩
      cases before with
      | nil =>
        obtain ⟨rfl, rfl⟩ := List.cons.inj hsplit
        exact .inl hgt
      | cons k before =>
        obtain ⟨rfl, rfl⟩ := List.cons.inj hsplit
        obtain ⟨htie, hties⟩ := List.forall_mem_cons.1 hties
        exact .inr ⟨Cell.compareNullsLast_eq_iff.2 htie, before, key', after, rfl, hties, hgt⟩

/-- What a key reads is null when the row holds a null there or ends before
it. -/
theorem cellAt_eq_null_iff {row : Row} {column : Nat} :
    cellAt row column = .null ↔ ∀ cell ∈ row[column]?, cell = .null := by
  cases h : row[column]? with
  | none => simp [cellAt, h]
  | some cell => simp [cellAt, h]

/-- **Rows are totally preordered, nulls last.** Whatever the keys are, and
whatever the rows hold and however wide they are, a row ties with itself,
swapping two rows reverses their order, and the order is transitive. Where
the earlier keys tie, a row without a value in the next key's column goes
after one that has a value there, in either direction. -/
theorem compare_preorder_nulls_last (order : RowOrder) :
    (∀ row, order.compare row row = .eq) ∧
    (∀ left right, order.compare right left = (order.compare left right).swap) ∧
    (∀ a b c, (order.compare a b).isLE → (order.compare b c).isLE → (order.compare a c).isLE) ∧
    ∀ before column direction after, order.keys = before ++ (column, direction) :: after →
      ∀ left right, RowOrder.compare ⟨before⟩ left right = .eq →
        (∀ cell ∈ left[column]?, cell = .null) → (∃ cell ∈ right[column]?, cell ≠ .null) →
        order.compare left right = .gt := by
  refine ⟨fun row => ReflCmp.compare_self, fun left right => OrientedCmp.eq_swap,
    fun a b c => TransCmp.isLE_trans, ?_⟩
  intro before column direction after hkeys left right hties hleft hright
  have hnull : cellAt left column = .null := cellAt_eq_null_iff.2 hleft
  have hvalue : cellAt right column ≠ .null := by
    intro h
    obtain ⟨cell, hcell, hne⟩ := hright
    exact hne (cellAt_eq_null_iff.1 h cell hcell)
  refine compareBy_eq_gt_iff.2 ⟨before, (column, direction), after, hkeys,
    compareBy_eq_iff.1 hties, ?_⟩
  rw [hnull]
  exact Cell.compareNullsLast_null_left hvalue

/-- Of two rows that start with NaN the short one goes after the wide one,
which alone has a value for the second key, a descending one. Zeros of both
signs and an array of integers are in order too. -/
theorem compare_preorder_nulls_last_two :
    let order : RowOrder := ⟨[(0, .asc), (2, .desc)]⟩
    let short : Row := [.double .nan]
    let wide : Row := [.double .nan, .null, .string "x"]
    let a : Row := [.double (.neg .zero)]
    let b : Row := [.double .zero]
    let c : Row := [.intArray []]
    order.compare short wide = .gt ∧ order.compare wide short = .lt ∧
    (order.compare a b).isLE ∧ (order.compare a c).isLE := by
  intro order short wide a b c
  obtain ⟨-, hswap, htrans, hnulls⟩ := compare_preorder_nulls_last order
  have hshort : order.compare short wide = .gt :=
    hnulls [(0, .asc)] 2 .desc [] rfl short wide (by decide +kernel) (by decide +kernel)
      ⟨.string "x", by decide +kernel, by decide +kernel⟩
  have hab : (order.compare a b).isLE := by decide +kernel
  refine ⟨hshort, ?_, hab, htrans a b c hab (by decide +kernel)⟩
  rw [hswap short wide, hshort]
  rfl

theorem validateBy_congr {row row' : Row} {keys : List (Nat × Direction)}
    (h : ∀ key ∈ keys, cellAt row key.1 = cellAt row' key.1) :
    validateBy row keys = validateBy row' keys := by
  induction keys with
  | nil => rfl
  | cons key rest ih =>
    obtain ⟨h0, h⟩ := List.forall_mem_cons.1 h
    simp only [validateBy, h0, ih h]

/-- A row without arrays where the keys look is accepted. -/
theorem validate_ok {order : RowOrder} {row : Row}
    (h : ∀ key ∈ order.keys, (cellAt row key.1).isMultiValue = false) :
    order.validate row = .ok () := by
  obtain ⟨keys⟩ := order
  simp only [validate] at h ⊢
  induction keys with
  | nil => rfl
  | cons key rest ih =>
    obtain ⟨h0, h⟩ := List.forall_mem_cons.1 h
    simp only [validateBy, h0, Bool.false_eq_true, if_false]
    exact ih h

/-- Sorting leaves the rows sorted. -/
theorem ascending_sort (order : RowOrder) (rows : List Row) :
    Ascending order.compare (order.sort rows) := ascending_mergeSort rows

theorem sort_perm (order : RowOrder) (rows : List Row) : (order.sort rows).Perm rows :=
  List.mergeSort_perm rows _

end RowOrder

end SegmentQuery
