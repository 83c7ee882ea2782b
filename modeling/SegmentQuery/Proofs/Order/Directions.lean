import Mathlib.Algebra.Order.Field.Rat
import Mathlib.Tactic.Positivity
import SegmentQuery.Proofs.Order.Cells
/-!
# What an ORDER BY column promises

The comparison of an ORDER BY column is finer than the values that it
compares: it tells the two zeros apart and finds a place for every NaN.
Read as a statement about values it says that no null stands before a
value, that of two numbers of one kind the lesser one comes first, that
texts are in the order of their code points, and that different kinds keep
a fixed order. All of this is meant in the column's direction.
-/


namespace SegmentQuery

/-! ## Numbers -/

/-- The order of all patterns refines the numeric one. -/
theorem Number.signedMagnitude_le_of_totalRank_le {signBit a b : Nat}
    (h : totalRank signBit a ≤ totalRank signBit b) :
    signedMagnitude signBit a ≤ signedMagnitude signBit b := by
  unfold totalRank at h
  unfold signedMagnitude
  split <;> split <;> simp_all <;> omega

theorem Double.le_of_isLE {x y : Double} (h : (x.compareTotal y).isLE) (hx : x.isNan = false)
    (hy : y.isNan = false) : x.le y := by
  have hrank : x.rank ≤ y.rank :=
    Number.signedMagnitude_le_of_totalRank_le (Int.isLE_compare.1 h)
  simp [Double.le, hx, hy, hrank]

theorem Single.le_of_isLE {x y : Single} (h : (x.compareTotal y).isLE) (hx : x.isNan = false)
    (hy : y.isNan = false) : x.le y := by
  have hrank : x.rank ≤ y.rank :=
    Number.signedMagnitude_le_of_totalRank_le (Int.isLE_compare.1 h)
  simp [Single.le, hx, hy, hrank]

/-- The rational number that a decimal stands for. -/
def Decimal.toRat (x : Decimal) : ℚ := x.coeff / 10 ^ x.scale

/-- **Decimals are compared as rational numbers.** -/
theorem Decimal.isLE_compare {x y : Decimal} : (x.compare y).isLE ↔ x.toRat ≤ y.toRat := by
  rw [compare, Scaled.isLE_compare, toRat, toRat, div_le_div_iff₀ (by positivity) (by positivity),
    Number.tenPow_eq, Number.tenPow_eq]
  exact_mod_cast Iff.rfl

/-! ## Cells -/

/-- Of two items in this order, the relation holds in a direction. -/
def Direction.Orders {α : Type} (direction : Direction) (le : α → α → Prop) (a b : α) : Prop :=
  match direction with
  | .asc => le a b
  | .desc => le b a

namespace Cell

/-- The value of one cell is at most that of another: numbers of one kind
are compared as numbers, unless one of them is a NaN, texts by their code
points, and cells of different kinds by the rank of their kinds. -/
def AtMost (a b : Cell) : Prop :=
  match a, b with
  | .int x, .int y => x.toInt ≤ y.toInt
  | .long x, .long y => x.toInt ≤ y.toInt
  | .float x, .float y => x.isNan = false → y.isNan = false → x.le y
  | .double x, .double y => x.isNan = false → y.isNan = false → x.le y
  | .bigDecimal x, .bigDecimal y => x.toRat ≤ y.toRat
  | .string x, .string y => (Text.compare x y).isLE
  | a, b => a.rank ≤ b.rank

/-- **What is compared as at most is at most by value.** -/
theorem atMost_of_isLE {a b : Cell} (h : (a.compare b).isLE) : a.AtMost b := by
  have hrank := rank_le_of_isLE h
  cases a <;> cases b <;> simp only [AtMost] <;> try exact hrank
  · exact Int.isLE_compare.1 h
  · exact Int.isLE_compare.1 h
  · exact Single.le_of_isLE h
  · exact Double.le_of_isLE h
  · exact Decimal.isLE_compare.1 h
  · exact h

/-- Two cells stand as one ORDER BY column asks: a null only before a null,
and two values in the column's direction. -/
def InDirection (direction : Direction) (a b : Cell) : Prop :=
  (a = .null → b = .null) ∧ (a ≠ .null → b ≠ .null → direction.Orders AtMost a b)

theorem inDirection_of_isLE {d : Direction} {a b : Cell} (h : (compareNullsLast d a b).isLE) :
    InDirection d a b := by
  refine ⟨fun ha => ?_, fun ha hb => ?_⟩
  · by_contra hb
    rw [ha, compareNullsLast_null_left hb] at h
    exact absurd h (by decide)
  · rw [compareNullsLast_of_values ha hb] at h
    cases d with
    | asc => exact atMost_of_isLE h
    | desc =>
      refine atMost_of_isLE ?_
      rw [compare_swap]
      exact h

end Cell

end SegmentQuery
