import SegmentQuery.Cell.Key
import SegmentQuery.Proofs.Order.Decimals
/-!
# The order of cells

Comparing cells is a total preorder, and so is comparing them with nulls
last in one direction. Two cells tie exactly when they have the same key:
what the order cannot tell apart is the scale of a decimal and nothing
else.
-/


namespace SegmentQuery

open Std (TransCmp OrientedCmp OrientedOrd LawfulEqCmp LawfulEqOrd)

/-! ## Texts, bytes and numbers -/

instance lawfulEqCmp_char : LawfulEqCmp (compareOn Char.toNat) where
  eq_of_compare h := Char.toNat_inj.1 (LawfulEqOrd.eq_of_compare h)

instance : TransCmp Text.compare where
  eq_swap {_ _} := @OrientedCmp.eq_swap _ (List.compareLex (compareOn Char.toNat)) _ _ _
  isLE_trans {_ _ _} := @TransCmp.isLE_trans _ (List.compareLex (compareOn Char.toNat)) _ _ _ _

instance : LawfulEqCmp Text.compare where
  eq_of_compare h :=
    String.toList_inj.1
      (@LawfulEqCmp.eq_of_compare _ (List.compareLex (compareOn Char.toNat)) _ _ _ h)

instance lawfulEqCmp_byte : LawfulEqCmp (compareOn UInt8.toNat) where
  eq_of_compare h := UInt8.toNat_inj.1 (LawfulEqOrd.eq_of_compare h)

namespace Cell

instance : TransCmp compareBytes :=
  inferInstanceAs (TransCmp (List.compareLex (compareOn UInt8.toNat)))

instance : LawfulEqCmp compareBytes :=
  inferInstanceAs (LawfulEqCmp (List.compareLex (compareOn UInt8.toNat)))

instance : TransCmp compareInt32 := inferInstanceAs (TransCmp (compareOn Int32.toInt))

instance : LawfulEqCmp compareInt32 where
  eq_of_compare h := Int32.toInt_inj.1 (LawfulEqOrd.eq_of_compare h)

instance : TransCmp compareInt64 := inferInstanceAs (TransCmp (compareOn Int64.toInt))

instance : LawfulEqCmp compareInt64 where
  eq_of_compare h := Int64.toInt_inj.1 (LawfulEqOrd.eq_of_compare h)

end Cell

/-- The rank of a pattern gives the pattern back. -/
theorem Number.totalRank_inj {signBit a b : Nat}
    (h : totalRank signBit a = totalRank signBit b) : a = b := by
  unfold totalRank at h
  split at h <;> split at h <;> omega

instance : TransCmp Double.compareTotal :=
  inferInstanceAs (TransCmp (compareOn fun x : Double =>
    Number.totalRank Number.Layout.double.signBit x.bits.toNat))

instance : LawfulEqCmp Double.compareTotal where
  eq_of_compare {x y} h := by
    have hbits := UInt64.toNat_inj.1 (Number.totalRank_inj (LawfulEqOrd.eq_of_compare h))
    cases x; cases y
    exact congrArg Double.mk hbits

instance : TransCmp Single.compareTotal :=
  inferInstanceAs (TransCmp (compareOn fun x : Single =>
    Number.totalRank Number.Layout.single.signBit x.bits.toNat))

instance : LawfulEqCmp Single.compareTotal where
  eq_of_compare {x y} h := by
    have hbits := UInt32.toNat_inj.1 (Number.totalRank_inj (LawfulEqOrd.eq_of_compare h))
    cases x; cases y
    exact congrArg Single.mk hbits

/-! ## Cells -/

namespace Cell

/-- Cells of different kinds are compared by rank. -/
theorem compare_of_rank_ne {a b : Cell} (h : a.rank ≠ b.rank) :
    a.compare b = Ord.compare a.rank b.rank := by
  cases a <;> cases b <;> first | rfl | exact absurd rfl h

/-- Where the comparison says `≤`, so do the ranks. -/
theorem rank_le_of_isLE {a b : Cell} (h : (a.compare b).isLE) : a.rank ≤ b.rank := by
  by_cases hr : a.rank = b.rank
  · exact hr.le
  · rw [compare_of_rank_ne hr] at h
    exact Nat.isLE_compare.1 h

theorem compare_swap (a b : Cell) : a.compare b = (b.compare a).swap := by
  cases a <;> cases b <;> simp only [compare]
  all_goals first | rfl | exact OrientedCmp.eq_swap

instance : TransCmp compare where
  eq_swap := compare_swap _ _
  isLE_trans {a b c} hab hbc := by
    have hrab := rank_le_of_isLE hab
    have hrbc := rank_le_of_isLE hbc
    by_cases hr : a.rank = c.rank
    · -- all three are of one kind
      have hb : a.rank = b.rank := le_antisymm hrab (hr ▸ hrbc)
      cases a <;> cases b <;> first | (simp [rank] at hb; done) | skip
      all_goals cases c <;> first | (simp [rank] at hr; done) | skip
      all_goals simp only [compare] at hab hbc ⊢
      · rfl
      all_goals exact TransCmp.isLE_trans hab hbc
    · rw [compare_of_rank_ne hr, Nat.isLE_compare]
      exact hrab.trans hrbc

/-- A cell and its key are of one kind. -/
@[simp] theorem rank_key (c : Cell) : c.key.cell.rank = c.rank := by
  cases c <;> rfl

/-- **Cells tie exactly when their keys are the same.** -/
theorem compare_eq_iff {a b : Cell} : a.compare b = .eq ↔ a.key = b.key := by
  by_cases hr : a.rank = b.rank
  · cases a <;> cases b <;> first | (simp [rank] at hr; done) | skip
    all_goals simp [compare, key, Decimal.compare_eq_iff]
  · rw [compare_of_rank_ne hr, Std.compare_eq_iff_eq]
    constructor
    · intro h
      exact absurd h hr
    · intro h
      exact absurd (by rw [← rank_key a, h, rank_key]) hr

/-! ## Nulls last -/

theorem isNull_of_ne {c : Cell} (h : c ≠ .null) : c.isNull = false := by
  cases c with
  | null => exact absurd rfl h
  | _ => rfl

@[simp] theorem key_eq_null {c : Cell} : c.key = ⟨.null⟩ ↔ c = .null := by
  cases c <;> simp [key]

/-- Two values are compared in their direction. -/
theorem compareNullsLast_of_values {d : Direction} {a b : Cell} (ha : a ≠ .null) (hb : b ≠ .null) :
    compareNullsLast d a b = d.apply (a.compare b) := by
  simp [compareNullsLast, isNull_of_ne ha, isNull_of_ne hb]

/-- A null ties with a null. -/
@[simp] theorem compareNullsLast_null_null (d : Direction) : compareNullsLast d .null .null = .eq :=
  rfl

/-- A null goes after a value, in either direction. -/
theorem compareNullsLast_null_left {d : Direction} {b : Cell} (hb : b ≠ .null) :
    compareNullsLast d .null b = .gt := by
  rw [compareNullsLast, isNull_of_ne hb]
  rfl

/-- A value goes before a null, in either direction. -/
theorem compareNullsLast_null_right {d : Direction} {a : Cell} (ha : a ≠ .null) :
    compareNullsLast d a .null = .lt := by
  rw [compareNullsLast, isNull_of_ne ha]
  rfl

theorem compareNullsLast_swap (d : Direction) (a b : Cell) :
    compareNullsLast d a b = (compareNullsLast d b a).swap := by
  by_cases ha : a = .null <;> by_cases hb : b = .null
  · rw [ha, hb]; rfl
  · rw [ha, compareNullsLast_null_left hb, compareNullsLast_null_right hb]; rfl
  · rw [hb, compareNullsLast_null_left ha, compareNullsLast_null_right ha]; rfl
  · rw [compareNullsLast_of_values ha hb, compareNullsLast_of_values hb ha]
    cases d
    · exact compare_swap a b
    · exact congrArg Ordering.swap (compare_swap a b)

instance (d : Direction) : TransCmp (compareNullsLast d) where
  eq_swap := compareNullsLast_swap d _ _
  isLE_trans {a b c} hab hbc := by
    by_cases hc : c = .null
    · -- nothing goes after a null
      by_cases ha : a = .null
      · rw [ha, hc]; rfl
      · rw [hc, compareNullsLast_null_right ha]; rfl
    · have hb : b ≠ .null := by
        rintro rfl
        rw [compareNullsLast_null_left hc] at hbc
        exact absurd hbc (by decide)
      have ha : a ≠ .null := by
        rintro rfl
        rw [compareNullsLast_null_left hb] at hab
        exact absurd hab (by decide)
      rw [compareNullsLast_of_values ha hb] at hab
      rw [compareNullsLast_of_values hb hc] at hbc
      rw [compareNullsLast_of_values ha hc]
      cases d
      · simp only [Direction.apply] at hab hbc ⊢
        exact TransCmp.isLE_trans hab hbc
      · simp only [Direction.apply, ← compare_swap] at hab hbc ⊢
        exact TransCmp.isLE_trans hbc hab

/-- Turning a comparison does not change which cells tie. -/
theorem apply_eq_eq {d : Direction} {o : Ordering} : d.apply o = .eq ↔ o = .eq := by
  cases d <;> cases o <;> decide

/-- **With nulls last, too, cells tie exactly when their keys are the
same.** -/
theorem compareNullsLast_eq_iff {d : Direction} {a b : Cell} :
    compareNullsLast d a b = .eq ↔ a.key = b.key := by
  by_cases ha : a = .null <;> by_cases hb : b = .null
  · simp [ha, hb]
  · rw [ha, compareNullsLast_null_left hb]
    have : (null : Cell).key ≠ b.key := fun h => hb (key_eq_null.1 h.symm)
    simp [this]
  · rw [hb, compareNullsLast_null_right ha]
    have : a.key ≠ (null : Cell).key := fun h => ha (key_eq_null.1 h)
    simp [this]
  · rw [compareNullsLast_of_values ha hb, apply_eq_eq, compare_eq_iff]

end Cell

end SegmentQuery
