import Mathlib.Data.List.Nodup
import SegmentQuery.Selection.RowArena
/-!
# Rows at their places

Every place of a row storage is in use or released, never both and never
twice. So a row that is stored gets a place of its own, and writing it
leaves the rows in use as they are.
-/


namespace SegmentQuery

namespace RowArena

/-- The places in use and the released ones are all different, and all of
them have been opened. -/
structure Holds (a : RowArena) (places : List Nat) : Prop where
  nodup : (places ++ a.free).Nodup
  lt : ∀ place ∈ places ++ a.free, place < a.rows.size

theorem holds_empty : empty.Holds [] := ⟨List.nodup_nil, by simp [empty]⟩

/-- The order in which the places are listed does not matter. -/
theorem Holds.perm {a : RowArena} {places places' : List Nat} (h : a.Holds places)
    (hp : places'.Perm places) : a.Holds places' where
  nodup := ((hp.append_right a.free).nodup_iff).2 h.nodup
  lt place hplace := h.lt place ((hp.append_right a.free).mem_iff.1 hplace)

theorem Holds.nodup_places {a : RowArena} {places : List Nat} (h : a.Holds places) : places.Nodup :=
  h.nodup.of_append_left

theorem Holds.lt_of_mem {a : RowArena} {places : List Nat} (h : a.Holds places) {place : Nat}
    (hp : place ∈ places) : place < a.rows.size := h.lt place (List.mem_append_left _ hp)

/-! ## Reading and writing -/

theorem get_set_self {a : RowArena} {place : Nat} (h : place < a.rows.size) (row : Row) :
    (a.set place row).get place = row := by
  simp [get, set, Array.getD, h]

theorem get_set_of_ne {a : RowArena} {place other : Nat} (h : other ≠ place) (row : Row) :
    (a.set place row).get other = a.get other := by
  simp [get, set, Ne.symm h]

@[simp] theorem size_set (a : RowArena) (place : Nat) (row : Row) :
    (a.set place row).rows.size = a.rows.size := by simp [set]

@[simp] theorem get_release (a : RowArena) (place other : Nat) :
    (a.release place).get other = a.get other := rfl

/-- **A stored row gets a place of its own** and leaves the others
alone. -/
theorem insert_spec {a : RowArena} {places : List Nat} (h : a.Holds places) (row : Row) :
    (a.insert row).2.Holds ((a.insert row).1 :: places) ∧
      (a.insert row).2.get (a.insert row).1 = row ∧
      ∀ place ∈ places, (a.insert row).2.get place = a.get place := by
  obtain ⟨rows, free⟩ := a
  cases free with
  | nil =>
    -- a new place is opened at the end
    have hlt : ∀ place ∈ places, place < rows.size := fun place hp => h.lt_of_mem hp
    refine ⟨⟨?_, ?_⟩, by simp [insert, get], ?_⟩
    · simp only [insert, List.append_nil, List.nodup_cons]
      exact ⟨fun hmem => absurd (hlt _ hmem) (Nat.lt_irrefl _), h.nodup_places⟩
    · intro place hplace
      simp only [insert, List.append_nil, Array.size_push] at hplace ⊢
      rcases List.mem_cons.1 hplace with rfl | hplace
      · omega
      · have := hlt place hplace
        omega
    · intro place hplace
      have hne : place ≠ rows.size := Nat.ne_of_lt (hlt place hplace)
      simp [insert, get, Array.getElem?_push, hne]
  | cons freed free =>
    have hnodup : (places ++ freed :: free).Nodup := h.nodup
    have hperm : (freed :: places ++ free).Perm (places ++ freed :: free) := List.perm_middle.symm
    have hfreed : freed < rows.size := h.lt freed (by simp)
    refine ⟨⟨(hperm.nodup_iff).2 hnodup, ?_⟩, get_set_self hfreed row, ?_⟩
    · intro place hplace
      have := h.lt place (hperm.mem_iff.1 hplace)
      simpa [insert, set] using this
    · intro place hplace
      refine get_set_of_ne (a := ⟨rows, freed :: free⟩) ?_ row
      rintro rfl
      exact (List.nodup_append.1 hnodup).2.2 place hplace place List.mem_cons_self rfl

/-- A released place is free to be used again. -/
theorem Holds.release {a : RowArena} {place : Nat} {places : List Nat}
    (h : a.Holds (place :: places)) : (a.release place).Holds places where
  nodup := (List.perm_middle.nodup_iff).2 h.nodup
  lt other hother := h.lt other (List.perm_middle.mem_iff.1 hother)

/-- Taking rows out of different places takes the rows that were there. -/
theorem takeAll_eq (a : RowArena) {places : List Nat} (h : places.Nodup) :
    a.takeAll places = places.map a.get := by
  induction places generalizing a with
  | nil => rfl
  | cons place rest ih =>
    obtain ⟨hplace, hrest⟩ := List.nodup_cons.1 h
    rw [takeAll, ih _ hrest, List.map_cons, List.cons.injEq]
    refine ⟨rfl, List.map_congr_left fun other hother => get_set_of_ne ?_ []⟩
    rintro rfl
    exact hplace hother

end RowArena

end SegmentQuery
