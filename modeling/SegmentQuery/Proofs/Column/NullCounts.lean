import SegmentQuery.Proofs.Aggregate.Folding
/-!
# Counting nulls in front

The first positions of a column can be told to be all null in two ways.
Counting the recorded positions below the prefix's end is right: nothing is
present exactly when each position is null. Comparing the size of the whole
null set with the prefix is not: positions recorded from the prefix's end on
make up for positions in the prefix that are present, so the two ways part
exactly where there are as many of the former as of the latter.
-/


namespace SegmentQuery

namespace Column

variable {c : Column} {n : Nat}

/-- The positions that the null set records. -/
def nullPositions (c : Column) : List Nat := (c.nulls.map DocSet.toList).getD []

/-- The number of recorded positions from `n` on. -/
def nullsFrom (c : Column) (n : Nat) : Nat := (c.nullPositions.filter (n ≤ ·)).length

theorem nullCount_eq_length (c : Column) : c.nullCount = c.nullPositions.length := by
  rw [nullCount, nullPositions]
  cases c.nulls <;> rfl

theorem nullPositions_ascending (c : Column) : c.nullPositions.Pairwise (· < ·) := by
  rw [nullPositions]
  cases c.nulls with
  | none => exact .nil
  | some nulls => exact nulls.ascending

/-- The recorded positions below a prefix's end, counted from the front. -/
theorem takeWhile_nullPositions (c : Column) (n : Nat) :
    c.nullPositions.takeWhile (· < n) = c.nullPositions.filter (· < n) :=
  takeWhile_lt_of_ascending c.nullPositions_ascending n

/-- Each recorded position is in the prefix or from its end on. -/
theorem nullCount_eq_add (c : Column) (n : Nat) :
    c.nullCount = (c.nullPositions.filter (· < n)).length + c.nullsFrom n := by
  have hfrom : c.nullPositions.filter (n ≤ ·) =
      c.nullPositions.filter fun p => !decide (p < n) := by
    refine List.filter_congr fun p _ => ?_
    rw [Bool.eq_iff_iff]
    simp
  rw [nullCount_eq_length, nullsFrom, hfrom, ← List.length_eq_length_filter_add]

/-- What is present of a prefix are its positions less the recorded
ones. -/
theorem countPresent_eq_sub (hn : n ≤ c.length) :
    c.countPresent n = n - (c.nullPositions.filter (· < n)).length := by
  rw [← takeWhile_nullPositions, countPresent, reach, Nat.min_eq_left hn, nullPositions]

/-- A prefix has no more recorded positions than positions. -/
theorem length_filter_nullPositions_le (c : Column) (n : Nat) :
    (c.nullPositions.filter (· < n)).length ≤ n :=
  DocSet.length_le_of_ascending (c.nullPositions_ascending.filter _) fun _ hp =>
    of_decide_eq_true (List.mem_filter.1 hp).2

/-- **Nothing of a prefix is present** exactly when each of its positions is
null. Null sets record 32 bits of a position. -/
theorem countPresent_eq_zero_iff (hn : n ≤ c.length) (hbound : n ≤ Number.bound32) :
    c.countPresent n = 0 ↔ ∀ i < n, c.isNull i := by
  have hrecorded : (c.nullPositions.filter (· < n)).length =
      ((List.range n).filter c.isNull).length := by
    rw [← takeWhile_nullPositions]
    unfold nullPositions isNull
    cases c.nulls with
    | none => simp [recordsNull]
    | some nulls => exact nulls.length_takeWhile_lt hbound
  have hall := List.length_filter_eq_length_iff (p := c.isNull) (l := List.range n)
  simp only [List.length_range, List.mem_range] at hall
  have hle := c.length_filter_nullPositions_le n
  rw [← hall, ← hrecorded, countPresent_eq_sub hn]
  omega

/-- **Comparing the null set's size with a prefix** compares what is present
of the prefix with what is recorded from its end on. -/
theorem allNull_iff (hpos : 0 < n) (hn : n ≤ c.length) :
    c.allNull n ↔ c.countPresent n ≤ c.nullsFrom n := by
  have hle := c.length_filter_nullPositions_le n
  rw [allNull, Bool.and_eq_true, decide_eq_true_eq, decide_eq_true_eq, nullCount_eq_add c n,
    countPresent_eq_sub hn]
  omega

/-- Positions past 32 bits read as the ones that they wrap around to. -/
theorem forall_isNull_iff (c : Column) (n : Nat) :
    (∀ i < n, c.isNull i) ↔ ∀ i < min n Number.bound32, c.isNull i := by
  refine ⟨fun h i hi => h i (Nat.lt_of_lt_of_le hi (Nat.min_le_left ..)), fun h i hi => ?_⟩
  have hpos : 0 < Number.bound32 := Nat.zero_lt_succ _
  have hwrapped : c.isNull i = c.isNull (i % Number.bound32) := by
    rw [isNull, isNull, recordsNull, recordsNull, Nat.mod_mod]
  rw [hwrapped]
  refine h _ (Nat.lt_min.2 ⟨Nat.lt_of_le_of_lt (Nat.mod_le ..) hi, Nat.mod_lt _ hpos⟩)

/-- **The null counters of a prefix.** Every position is null exactly when
nothing is counted as present. Comparing sizes finds the same wherever the
null set does not make up from the prefix's end on for what is present. -/
theorem allNull_agrees_iff (c : Column) (hpos : 0 < n) (hn : n ≤ c.length) :
    ((∀ i < n, c.isNull i) ↔ c.countPresent (min n Number.bound32) = 0) ∧
    (c.allNull n ↔ c.countPresent n ≤ c.nullsFrom n) ∧
    ((c.allNull n ↔ c.countPresent n = 0) ↔
      c.countPresent n = 0 ∨ c.nullsFrom n < c.countPresent n) := by
  have hcompares := allNull_iff hpos hn
  refine ⟨?_, hcompares, ?_⟩
  · rw [forall_isNull_iff, countPresent_eq_zero_iff ((Nat.min_le_left ..).trans hn)
      (Nat.min_le_right ..)]
  · rw [hcompares]
    omega

/-- Two values, of which the second one is null. -/
def laterNull : Column where
  values := .single .int [1, 2]
  nulls := some (.ofList [1])

/-- The null behind a prefix of one passes for a null in it. -/
theorem allNull_agrees_iff_laterNull :
    0 < 1 ∧ 1 ≤ laterNull.length ∧ laterNull.allNull 1 = true ∧ laterNull.isNull 0 = false ∧
      laterNull.countPresent 1 = 1 ∧
      ¬ (laterNull.allNull 1 ↔ laterNull.countPresent 1 = 0) := by
  have hn : 1 ≤ laterNull.length := by decide
  obtain ⟨-, -, hagrees⟩ := allNull_agrees_iff laterNull Nat.one_pos hn
  refine ⟨Nat.one_pos, hn, by decide, by decide, by decide, fun h => ?_⟩
  exact absurd (hagrees.1 h) (by decide)

end Column

end SegmentQuery
