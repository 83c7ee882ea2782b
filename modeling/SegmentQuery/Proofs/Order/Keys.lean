import SegmentQuery.Distinct.Values
import SegmentQuery.Proofs.Order.Cells
/-!
# The order of keys

Comparing keys is a total preorder, and so is comparing tuples of keys,
and values with null last. Two keys that tie need not be equal, since the
zeros are one value and so are all NaNs; lists in which nothing ties are
what sorting makes unique.
-/


namespace SegmentQuery

open Std (TransCmp OrientedCmp)

instance : TransCmp Double.compareRanked := inferInstanceAs (TransCmp (compareOn Double.keyRank))

instance : TransCmp Single.compareRanked := inferInstanceAs (TransCmp (compareOn Single.keyRank))

/-- A key is the key of its own cell. -/
@[simp] theorem Cell.key_cell_key (c : Cell) : c.key.cell.key = c.key := by
  cases c <;> simp [key]

@[simp] theorem Cell.storedType_key (c : Cell) : c.key.cell.storedType = c.storedType := by
  cases c <;> rfl

@[simp] theorem Cell.isMultiValue_key (c : Cell) : c.key.cell.isMultiValue = c.isMultiValue := by
  cases c <;> rfl

namespace Key

/-- Keys of different kinds are compared by rank. -/
theorem compare_of_rank_ne {a b : Key} (h : a.cell.rank ≠ b.cell.rank) :
    a.compare b = Ord.compare a.cell.rank b.cell.rank := by
  obtain ⟨a⟩ := a
  obtain ⟨b⟩ := b
  cases a <;> cases b <;> first | rfl | exact absurd rfl h

/-- Null is after every other key. -/
theorem compare_null {a : Key} (h : a.cell ≠ .null) : a.compare (Cell.key .null) = .lt := by
  obtain ⟨c⟩ := a
  cases c <;> first | rfl | exact absurd rfl h

/-- Where the comparison says `≤`, so do the ranks. -/
theorem rank_le_of_isLE {a b : Key} (h : (a.compare b).isLE) : a.cell.rank ≤ b.cell.rank := by
  by_cases hr : a.cell.rank = b.cell.rank
  · exact hr.le
  · rw [compare_of_rank_ne hr] at h
    exact Nat.isLE_compare.1 h

theorem compare_swap (a b : Key) : a.compare b = (b.compare a).swap := by
  obtain ⟨a⟩ := a
  obtain ⟨b⟩ := b
  cases a <;> cases b <;> simp only [compare, Cell.compare]
  all_goals first | rfl | exact OrientedCmp.eq_swap

instance : TransCmp compare where
  eq_swap := compare_swap _ _
  isLE_trans {a b c} hab hbc := by
    have hrab := rank_le_of_isLE hab
    have hrbc := rank_le_of_isLE hbc
    by_cases hr : a.cell.rank = c.cell.rank
    · -- all three are of one kind
      have hb : a.cell.rank = b.cell.rank := le_antisymm hrab (hr ▸ hrbc)
      obtain ⟨a⟩ := a
      obtain ⟨b⟩ := b
      obtain ⟨c⟩ := c
      simp only at hr hb
      cases a <;> cases b <;> first | (simp [Cell.rank] at hb; done) | skip
      all_goals cases c <;> first | (simp [Cell.rank] at hr; done) | skip
      all_goals simp only [compare, Cell.compare] at hab hbc ⊢
      · rfl
      all_goals exact TransCmp.isLE_trans hab hbc
    · rw [compare_of_rank_ne hr, Nat.isLE_compare]
      exact hrab.trans hrbc

instance : TransCmp compareTuples := inferInstanceAs (TransCmp (List.compareLex compare))

end Key

namespace DistinctValues

theorem compareValues_swap (d : Direction) (a b : Option Key) :
    compareValues d a b = (compareValues d b a).swap := by
  cases a with
  | none => cases b <;> rfl
  | some a =>
    cases b with
    | none => rfl
    | some b =>
      cases d
      · exact Key.compare_swap a b
      · exact congrArg Ordering.swap (Key.compare_swap a b)

instance (d : Direction) : TransCmp (compareValues d) where
  eq_swap := compareValues_swap d _ _
  isLE_trans {a b c} hab hbc := by
    cases c with
    | none => cases a <;> rfl
    | some c =>
      -- what comes before a value is a value
      cases b with
      | none => exact absurd hbc Bool.false_ne_true
      | some b =>
        cases a with
        | none => exact absurd hab Bool.false_ne_true
        | some a =>
          cases d
          · exact @TransCmp.isLE_trans _ Key.compare _ a b c hab hbc
          · simp only [compareValues, Direction.apply, ← Key.compare_swap] at hab hbc ⊢
            exact TransCmp.isLE_trans hbc hab

/-- Values are one when they tie, whatever the direction. -/
theorem sameValue_iff {d : Direction} {a b : Option Key} :
    sameValue a b ↔ compareValues d a b = .eq := by
  unfold sameValue
  rw [beq_iff_eq]
  cases a <;> cases b <;> simp only [compareValues, reduceCtorEq, Cell.apply_eq_eq]

theorem sameValue_refl (a : Option Key) : sameValue a a :=
  (@sameValue_iff .asc a a).2 Std.ReflCmp.compare_self

theorem sameValue_comm {a b : Option Key} : sameValue a b ↔ sameValue b a := by
  rw [@sameValue_iff .asc, @sameValue_iff .asc, OrientedCmp.eq_comm]

end DistinctValues

end SegmentQuery
