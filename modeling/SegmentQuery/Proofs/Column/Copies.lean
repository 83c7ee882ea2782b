import Mathlib.Data.List.Sort
import SegmentQuery.Proofs.Segment.Partitions
/-!
# Copies carry nulls with their documents

Values and null sets are copied apart: `take?` looks values up and numbers
the null positions among those asked for anew, `slice?` cuts values out and
shifts the recorded positions. This file relates the two. A copy has at each
place the value and the nullness of the position it was taken from, in any
order and however often, and nothing is recorded past its end; a copy of a
copy is a copy, and a slice is the copy of its range. Null sets record 32
bits of a position, so the nulls of more documents than that share places.
-/


namespace SegmentQuery

/-- Sets with the same members are the same. -/
theorem DocSet.eq_of_mem_iff {s t : DocSet} (h : ∀ n, n ∈ s.toList ↔ n ∈ t.toList) : s = t := by
  have hlist : s.toList = t.toList := s.ascending.eq_of_mem_iff t.ascending h
  cases s
  cases t
  cases hlist
  rfl

/-- The positions of a range are before its end. -/
theorem lt_of_mem_range' {start stop length : Nat} (hstop : stop ≤ length) :
    ∀ p ∈ List.range' start (stop - start), p < length := by
  intro p hp
  rw [List.mem_range'_1] at hp
  omega

namespace ColumnValues

/-- The elements from `start` up to `stop` are those at the positions from
`start` up to `stop`. -/
theorem drop_take_eq_filterMap {α : Type} {vs : List α} {start stop : Nat}
    (hstop : stop ≤ vs.length) :
    (vs.take stop).drop start = (List.range' start (stop - start)).filterMap (vs[·]?) := by
  refine List.ext_getElem? fun i => ?_
  rw [List.getElem?_drop]
  rcases Nat.lt_or_ge i (stop - start) with hi | hi
  · have hplace : i < (List.range' start (stop - start)).length := by rwa [List.length_range']
    rw [Column.getElem?_filterMap_getElem? (lt_of_mem_range' hstop) hplace, List.getElem_range',
      Nat.one_mul, List.getElem?_take_of_lt (by omega)]
  · have hshort : ((List.range' start (stop - start)).filterMap (vs[·]?)).length ≤ i :=
      (List.length_filterMap_le ..).trans (by rwa [List.length_range'])
    rw [List.getElem?_eq_none hshort, List.getElem?_eq_none]
    rw [List.length_take]
    omega

/-- A range of values holds the values at its positions. -/
theorem range_eq_select {values : ColumnValues} {start stop : Nat} (hstop : stop ≤ values.length) :
    values.range start stop = values.select (List.range' start (stop - start)) := by
  cases values with
  | single t vs => exact congrArg (ColumnValues.single t) (drop_take_eq_filterMap hstop)
  | multi t vs => exact congrArg (ColumnValues.multi t) (drop_take_eq_filterMap hstop)

end ColumnValues

namespace Column

variable {c : Column} {positions : List Nat}

/-- A column that holds what another one has at some positions. -/
structure TakenFrom (c : Column) (positions : List Nat) (copy : Column) : Prop where
  type_eq : copy.type = c.type
  isSingleValue_eq : copy.isSingleValue = c.isSingleValue
  length_eq : copy.length = positions.length
  value_eq : ∀ i p, positions[i]? = some p →
    ∃ value, copy.values.at? i = some value ∧ c.values.at? p = some value
  /-- Places that a null set cannot tell apart share their nulls. -/
  isNull_iff : ∀ i, copy.isNull i ↔
    ∃ j p, positions[j]? = some p ∧ j % Number.bound32 = i % Number.bound32 ∧ c.isNull p
  isNull_eq : positions.length ≤ Number.bound32 →
    ∀ i p, positions[i]? = some p → copy.isNull i = c.isNull p
  lt_length : ∀ nulls, copy.nulls = some nulls → ∀ n ∈ nulls.toList, n < positions.length

/-- Positions of the column can be taken. -/
theorem take?_of_lt (hlt : ∀ p ∈ positions, p < c.length) :
    c.take? positions = some (c.select positions) :=
  if_pos (List.all_eq_true.2 fun p hp => decide_eq_true (hlt p hp))

/-- No null is copied past the end of a copy. -/
theorem lt_of_mem_selectNulls {nulls : DocSet} {n : Nat}
    (hn : n ∈ (selectNulls nulls positions).toList) : n < positions.length := by
  obtain ⟨i, p, hget, rfl, -⟩ := mem_selectNulls.1 hn
  exact Nat.lt_of_le_of_lt (Nat.mod_le ..) (List.getElem?_eq_some_iff.1 hget).1

/-- **A copy holds what its positions have.** -/
theorem takenFrom_select (hlt : ∀ p ∈ positions, p < c.length) :
    c.TakenFrom positions (c.select positions) where
  type_eq := ColumnValues.type_select ..
  isSingleValue_eq := ColumnValues.isSingleValue_select ..
  length_eq := ColumnValues.length_select hlt
  value_eq i p hget := by
    obtain ⟨hi, rfl⟩ := List.getElem?_eq_some_iff.1 hget
    obtain ⟨value, hvalue⟩ := Option.isSome_iff_exists.1
      (ColumnValues.isSome_at?_iff.2 (hlt _ (List.getElem_mem hi)))
    exact ⟨value, (ColumnValues.at?_select hlt hi).trans hvalue, hvalue⟩
  isNull_iff i := isNull_select_iff
  isNull_eq hlen i p hget := by
    obtain ⟨hi, rfl⟩ := List.getElem?_eq_some_iff.1 hget
    exact isNull_select hlen hi
  lt_length nulls hnulls n hn := by
    obtain ⟨recorded, -, rfl⟩ := Option.map_eq_some_iff.1 hnulls
    exact lt_of_mem_selectNulls hn

/-! ## Copies of copies -/

/-- Positions of a list stand for what the list has there. -/
theorem forall₂_get (again : List (Fin positions.length)) :
    List.Forall₂ (fun q p => positions[q]? = some p) (again.map Fin.val)
      (again.map positions.get) := by
  rw [List.forall₂_map_left_iff, List.forall₂_map_right_iff, List.forall₂_same]
  exact fun q _ => List.getElem?_eq_getElem q.isLt

/-- **Taking from a copy** takes the positions that its places were taken
from. -/
theorem take?_select (hlt : ∀ p ∈ positions, p < c.length)
    (again : List (Fin positions.length)) :
    (c.select positions).take? (again.map Fin.val) =
        some ((c.select positions).select (again.map Fin.val)) ∧
      c.take? (again.map positions.get) = some (c.select (again.map positions.get)) := by
  refine ⟨take?_of_lt fun q hq => ?_, take?_of_lt fun p hp => ?_⟩
  · obtain ⟨place, -, rfl⟩ := List.mem_map.1 hq
    rw [(takenFrom_select hlt).length_eq]
    exact place.isLt
  · obtain ⟨place, -, rfl⟩ := List.mem_map.1 hp
    exact hlt _ (List.get_mem ..)

/-! ## Slices -/

/-- The positions of a range, by their places. -/
theorem getElem?_range'_eq_some_iff {start count i p : Nat} :
    (List.range' start count)[i]? = some p ↔ i < count ∧ start + i = p := by
  simp [List.getElem?_eq_some_iff]

/-- The nulls of a range that ends within 32 bits are those at its
positions: shifting them is numbering them anew. -/
theorem rangeNulls_eq_selectNulls (nulls : DocSet) {start stop : Nat} (hle : start ≤ stop)
    (hstop : stop < Number.bound32) :
    rangeNulls nulls start stop = selectNulls nulls (List.range' start (stop - start)) := by
  refine DocSet.eq_of_mem_iff fun n => ?_
  rw [mem_selectNulls, rangeNulls, DocSet.mem_toList_ofList,
    Nat.mod_eq_of_lt (Nat.lt_of_le_of_lt hle hstop), Nat.mod_eq_of_lt hstop]
  simp only [List.mem_map, List.mem_filter, decide_eq_true_eq, getElem?_range'_eq_some_iff,
    DocSet.contains_iff]
  constructor
  · rintro ⟨p, ⟨hp, hge, hlt⟩, rfl⟩
    refine ⟨p - start, p, ⟨by omega, by omega⟩, Nat.mod_eq_of_lt (by omega), ?_⟩
    rwa [Nat.mod_eq_of_lt (hlt.trans hstop)]
  · rintro ⟨i, p, ⟨hi, rfl⟩, rfl, hp⟩
    rw [Nat.mod_eq_of_lt (by omega)] at hp
    refine ⟨start + i, ⟨hp, by omega, by omega⟩, ?_⟩
    rw [Nat.mod_eq_of_lt (by omega), Nat.add_sub_cancel_left]

/-- **Copies carry nulls with their documents.** Whatever the layout of a
column, its null set and the positions asked for, taking them gives at each
place the value and the nullness of the position there, and records no null
past the end; taking places of the copy takes the positions that they were
taken from, and a slice takes the positions of its range. Nulls keep to
their places while 32 bits number all of these, and the end of the range. -/
theorem copies_carry_nulls (c : Column) :
    (∀ positions, (∀ p ∈ positions, p < c.length) →
      ∃ copy, c.take? positions = some copy ∧ c.TakenFrom positions copy ∧
        ∀ again : List (Fin positions.length), ∃ twice once,
          copy.take? (again.map Fin.val) = some twice ∧
          c.take? (again.map positions.get) = some once ∧
          twice.values = once.values ∧
          (positions.length ≤ Number.bound32 → twice = once)) ∧
    ∀ start stop, start ≤ stop → stop ≤ c.length → ∃ cut taken,
      c.slice? start stop = some cut ∧
      c.take? (List.range' start (stop - start)) = some taken ∧
      cut.values = taken.values ∧ (stop < Number.bound32 → cut = taken) := by
  constructor
  · intro positions hlt
    refine ⟨_, take?_of_lt hlt, takenFrom_select hlt, fun again => ?_⟩
    obtain ⟨htwice, honce⟩ := take?_select hlt again
    have hplaces := forall₂_get again
    exact ⟨_, _, htwice, honce, values_select_select hlt hplaces,
      fun hlen => select_select hlt hlen hplaces⟩
  · intro start stop hle hstop
    have hvalues : c.values.range start stop = _ := ColumnValues.range_eq_select hstop
    refine ⟨_, _, if_pos ⟨hle, hstop⟩, take?_of_lt (lt_of_mem_range' hstop), hvalues,
      fun hbound => ?_⟩
    refine congrArg₂ Column.mk hvalues (congrArg (Option.map · c.nulls) ?_)
    exact funext fun nulls => rangeNulls_eq_selectNulls nulls hle hbound

/-- Three values, of which the second one is null, and a recorded position
past the last one. -/
def strayNull : Column where
  values := .single .int [10, 20, 30]
  nulls := some (.ofList [1, 7])

/-- The null is copied to each of its places, from the copy too, and a slice
has it in front. -/
theorem copies_carry_nulls_stray :
    (∀ p ∈ [2, 1, 1], p < strayNull.length) ∧ [2, 1, 1].length ≤ Number.bound32 ∧
    (∃ copy once, strayNull.take? [2, 1, 1] = some copy ∧
      copy.isNull 0 = false ∧ copy.isNull 1 = true ∧ copy.isNull 2 = true ∧
      copy.take? [1, 0] = some once ∧ strayNull.take? [1, 2] = some once) ∧
    1 ≤ 3 ∧ 3 ≤ strayNull.length ∧ 3 < Number.bound32 ∧
    ∃ cut, strayNull.slice? 1 3 = some cut ∧ strayNull.take? [1, 2] = some cut := by
  obtain ⟨htake, hslice⟩ := copies_carry_nulls strayNull
  have hlt : ∀ p ∈ [2, 1, 1], p < strayNull.length := by decide
  have hlen : [2, 1, 1].length ≤ Number.bound32 := by decide
  have hend : 3 ≤ strayNull.length := by decide
  have hbound : 3 < Number.bound32 := by decide
  obtain ⟨copy, hcopy, htaken, hagain⟩ := htake [2, 1, 1] hlt
  obtain ⟨twice, once, htwice, honce, -, hsame⟩ := hagain [⟨1, by decide⟩, ⟨0, by decide⟩]
  obtain ⟨cut, taken, hcut, hrange, -, halike⟩ := hslice 1 3 (by decide) hend
  have hnull := htaken.isNull_eq hlen
  refine ⟨hlt, hlen, ⟨copy, once, hcopy, ?_, ?_, ?_, hsame hlen ▸ htwice, honce⟩,
    by decide, hend, hbound, cut, hcut, halike hbound ▸ hrange⟩
  · rw [hnull 0 2 rfl]
    decide
  · rw [hnull 1 1 rfl]
    decide
  · rw [hnull 2 1 rfl]
    decide

/-! ## Places past 32 bits -/

/-- Zeros, the first of which is null. -/
def zeros (n : Nat) : Column where
  values := .single .int (List.replicate n (0 : Int32))
  nulls := some (.ofList [0])

theorem length_zeros (n : Nat) : (zeros n).length = n := List.length_replicate

theorem isNull_zeros (n : Nat) : (zeros n).isNull 0 = true := rfl

/-- A slice that ends where 32 bits do keeps no null: its end counts as 0. -/
theorem slice?_zeros {n : Nat} (hn : n = Number.bound32) :
    ∃ cut taken, (zeros n).slice? 0 n = some cut ∧
      (zeros n).take? (List.range' 0 n) = some taken ∧
      cut.isNull 0 = false ∧ taken.isNull 0 = true := by
  have hend : n ≤ (zeros n).length := (length_zeros n).ge
  have hlt : ∀ p ∈ List.range' 0 n, p < (zeros n).length := lt_of_mem_range' hend
  refine ⟨_, _, if_pos ⟨Nat.zero_le n, hend⟩, take?_of_lt hlt, ?_, ?_⟩
  · have hnone : ∀ nulls, rangeNulls nulls 0 n = .ofList [] := fun nulls => by
      have hstop : n % Number.bound32 = 0 := hn ▸ Nat.mod_self _
      simp [rangeNulls, hstop]
    simp only [isNull, recordsNull, zeros, Option.map_some, hnone]
    rfl
  · have hplaces : (List.range' 0 n)[0]? = some 0 :=
      getElem?_range'_eq_some_iff.2 ⟨hn ▸ by decide, rfl⟩
    exact isNull_select_iff.2 ⟨0, 0, hplaces, rfl, isNull_zeros n⟩

/-- **Past 32 bits nulls lose their places.** A slice that ends there is not
the copy of its range, and a copy of one null reads as null again as many
places past its end. -/
theorem copies_past_bits :
    (∃ cut taken, (zeros Number.bound32).slice? 0 Number.bound32 = some cut ∧
      (zeros Number.bound32).take? (List.range' 0 Number.bound32) = some taken ∧
      cut.isNull 0 = false ∧ taken.isNull 0 = true) ∧
    ∃ copy, (zeros 1).take? [0] = some copy ∧ copy.length = 1 ∧
      copy.isNull Number.bound32 = true :=
  ⟨slice?_zeros rfl, _, rfl, rfl, by decide⟩

end Column

end SegmentQuery
