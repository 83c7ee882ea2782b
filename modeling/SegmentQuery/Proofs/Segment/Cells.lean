import Mathlib.Data.List.Perm.Subperm
import Mathlib.Data.List.Nodup
import SegmentQuery.Block.RowView
import SegmentQuery.Proofs.Except
/-!
# The cells of a column

`Column.cellOf` says what a reader sees of a document in a column: null
where the null set records the document and null handling is on, and the
stored value elsewhere. A batch copied out of the column reads so, each
position as the document it was taken from.
-/


namespace SegmentQuery

namespace DocSet

@[simp] theorem contains_iff {s : DocSet} {n : Nat} : s.contains n ↔ n ∈ s.toList :=
  List.contains_iff_mem

/-- Distinct numbers below a bound are no more than the bound. -/
theorem length_le_of_ascending {ns : List Nat} {bound : Nat} (h : ns.Pairwise (· < ·))
    (hlt : ∀ n ∈ ns, n < bound) : ns.length ≤ bound := by
  have hnodup : ns.Nodup := h.imp fun hab => Nat.ne_of_lt hab
  have hsub : ns ⊆ List.range bound := fun n hn => List.mem_range.2 (hlt n hn)
  simpa using (hnodup.subperm hsub).length_le

end DocSet

namespace Column

/-- Whether cells can hold the column's values. -/
def Readable (c : Column) : Prop :=
  match c.values with
  | .single _ _ => True
  | .multi t _ => t.arrayCell?.isSome

/-- What a reader sees of a document. Multi-value columns hold no
nulls. -/
def cellOf (nullHandling : Bool) (c : Column) (document : Nat) : Cell :=
  match c.values with
  | .single t vs =>
    if nullHandling && c.isNull document then .null else (vs[document]?.map t.cell).getD .null
  | .multi t vs => (t.arrayCell?.bind fun toCell => vs[document]?.map toCell).getD .null

/-- The column of a block that delivers some documents. -/
def delivered (nullHandling : Bool) (c : Column) (documents : List Nat) : Column :=
  if nullHandling then c.select documents else (c.select documents).dropNulls

/-! ## Copies of documents -/

/-- Position by position, a copy holds the documents it was taken
from. -/
theorem getElem?_filterMap_getElem? {α : Type} {vs : List α} {documents : List Nat}
    (hlt : ∀ d ∈ documents, d < vs.length) {position : Nat} (hp : position < documents.length) :
    (documents.filterMap (vs[·]?))[position]? = vs[documents[position]]? := by
  induction documents generalizing position with
  | nil => exact absurd hp (Nat.not_lt_zero position)
  | cons d rest ih =>
    obtain ⟨hd, hrest⟩ := List.forall_mem_cons.1 hlt
    rw [List.filterMap_cons, List.getElem?_eq_getElem hd]
    cases position with
    | zero => simp [List.getElem?_eq_getElem hd]
    | succ position =>
      have hp' : position < rest.length := Nat.lt_of_succ_lt_succ hp
      simpa using ih hrest hp'

/-- A copied null is at the place of a null position. -/
theorem mem_selectNulls {nulls : DocSet} {positions : List Nat} {n : Nat} :
    n ∈ (selectNulls nulls positions).toList ↔ ∃ i p, positions[i]? = some p ∧
      i % Number.bound32 = n ∧ nulls.contains (p % Number.bound32) := by
  rw [selectNulls, DocSet.mem_toList_ofList]
  simp only [List.mem_map, List.mem_filter, Prod.exists, List.mem_zipIdx_iff_getElem?]
  constructor
  · rintro ⟨p, i, ⟨hget, hnull⟩, rfl⟩
    exact ⟨i, p, hget, rfl, hnull⟩
  · rintro ⟨i, p, hget, rfl, hnull⟩
    exact ⟨p, i, ⟨hget, hnull⟩, rfl⟩

/-- A place of a copy reads as null when a place with the same 32 bits was
taken from a null position. -/
theorem isNull_select_iff {c : Column} {positions : List Nat} {i : Nat} :
    (c.select positions).isNull i ↔ ∃ j p, positions[j]? = some p ∧
      j % Number.bound32 = i % Number.bound32 ∧ c.isNull p := by
  rw [isNull, recordsNull, select]
  simp only [isNull, recordsNull]
  cases c.nulls with
  | none => simp
  | some nulls =>
    rw [Option.map_some, Option.any_some, DocSet.contains_iff, mem_selectNulls]
    simp only [Option.any_some]

/-- **A copy's position is null** exactly when its document is. -/
theorem isNull_select {c : Column} {documents : List Nat}
    (hlen : documents.length ≤ Number.bound32) {position : Nat} (hp : position < documents.length) :
    (c.select documents).isNull position = c.isNull documents[position] := by
  rw [Bool.eq_iff_iff, isNull_select_iff]
  constructor
  · rintro ⟨j, d, hget, hsame, hnull⟩
    obtain ⟨hj, rfl⟩ := List.getElem?_eq_some_iff.1 hget
    rw [Nat.mod_eq_of_lt (Nat.lt_of_lt_of_le hj hlen),
      Nat.mod_eq_of_lt (Nat.lt_of_lt_of_le hp hlen)] at hsame
    subst hsame
    exact hnull
  · intro hnull
    exact ⟨position, documents[position], List.getElem?_eq_getElem hp, rfl, hnull⟩

/-- Values that are copied twice, at positions that stand for some
documents. -/
theorem filterMap_getElem?_twice {α : Type} {vs : List α} {documents positions kept : List Nat}
    (hlt : ∀ d ∈ documents, d < vs.length)
    (hkept : List.Forall₂ (fun position d => documents[position]? = some d) positions kept) :
    positions.filterMap ((documents.filterMap (vs[·]?))[·]?) = kept.filterMap (vs[·]?) := by
  induction hkept with
  | nil => rfl
  | @cons position d positions kept hget _ ih =>
    obtain ⟨hp, rfl⟩ := List.getElem?_eq_some_iff.1 hget
    rw [List.filterMap_cons, List.filterMap_cons, getElem?_filterMap_getElem? hlt hp, ih]

/-- Copies of copied values are copies of the values. -/
theorem values_select_select {c : Column} {documents positions kept : List Nat}
    (hlt : ∀ d ∈ documents, d < c.length)
    (hkept : List.Forall₂ (fun position d => documents[position]? = some d) positions kept) :
    ((c.select documents).select positions).values = (c.select kept).values := by
  obtain ⟨values, nulls⟩ := c
  cases values with
  | single t vs => exact congrArg (ColumnValues.single t) (filterMap_getElem?_twice hlt hkept)
  | multi t vs => exact congrArg (ColumnValues.multi t) (filterMap_getElem?_twice hlt hkept)

/-- Null positions that are copied twice, wherever the positions start. -/
theorem zipIdx_nulls_twice (nulls : DocSet) {documents positions kept : List Nat}
    (hlen : documents.length ≤ Number.bound32)
    (hkept : List.Forall₂ (fun position d => documents[position]? = some d) positions kept)
    (start : Nat) :
    ((positions.zipIdx start).filter fun p =>
        (selectNulls nulls documents).contains (p.1 % Number.bound32)).map
        (·.2 % Number.bound32) =
      ((kept.zipIdx start).filter fun p => nulls.contains (p.1 % Number.bound32)).map
        (·.2 % Number.bound32) := by
  induction hkept generalizing start with
  | nil => rfl
  | @cons position d positions kept hget _ ih =>
    obtain ⟨hp, rfl⟩ := List.getElem?_eq_some_iff.1 hget
    have hnull : (selectNulls nulls documents).contains (position % Number.bound32) =
        nulls.contains (documents[position] % Number.bound32) :=
      isNull_select (c := ⟨.single .int [], some nulls⟩) hlen hp
    rw [List.zipIdx_cons, List.zipIdx_cons, List.filter_cons, List.filter_cons, hnull]
    cases nulls.contains (documents[position] % Number.bound32) <;> simp [ih]

/-- **A copy of a copy is a copy** of the documents that the positions
stand for. -/
theorem select_select {c : Column} {documents positions kept : List Nat}
    (hlt : ∀ d ∈ documents, d < c.length) (hlen : documents.length ≤ Number.bound32)
    (hkept : List.Forall₂ (fun position d => documents[position]? = some d) positions kept) :
    (c.select documents).select positions = c.select kept := by
  have hnulls : ((c.select documents).select positions).nulls = (c.select kept).nulls := by
    rw [select, select, select, Option.map_map]
    exact congrArg (Option.map · c.nulls) <| funext fun nulls =>
      congrArg DocSet.ofList (zipIdx_nulls_twice nulls hlen hkept 0)
  exact congrArg₂ Column.mk (values_select_select hlt hkept) hnulls

/-- A column as a scan sees it: without its nulls where they are not
handled. -/
def seen (nullHandling : Bool) (c : Column) : Column := if nullHandling then c else c.dropNulls

theorem delivered_eq (nullHandling : Bool) (c : Column) (documents : List Nat) :
    c.delivered nullHandling documents = (c.seen nullHandling).select documents := by
  cases nullHandling <;> rfl

theorem length_seen (nullHandling : Bool) (c : Column) :
    (c.seen nullHandling).length = c.length := by
  cases nullHandling <;> rfl

/-- What can be read of a batch can be read of its column. -/
theorem readable_of_delivered {c : Column} {documents : List Nat} {nullHandling : Bool}
    {view : CellColumn}
    (h : CellColumn.ofColumn (c.delivered nullHandling documents) = .ok view) : c.Readable := by
  have hvalues : (c.delivered nullHandling documents).values = c.values.select documents := by
    cases nullHandling <;> rfl
  unfold Readable
  rw [CellColumn.ofColumn, hvalues] at h
  cases hc : c.values with
  | single t vs => trivial
  | multi t vs =>
    rw [hc] at h
    cases htoCell : t.arrayCell? with
    | some toCell => exact Option.isSome_iff_exists.2 ⟨toCell, htoCell⟩
    | none =>
      simp only [ColumnValues.select, htoCell] at h
      exact nomatch h

/-- **A batch reads as the documents it was taken from.** -/
theorem ofColumn_delivered {c : Column} (hread : c.Readable) {documents : List Nat}
    (hlt : ∀ d ∈ documents, d < c.length) (hlen : documents.length ≤ Number.bound32)
    (nullHandling : Bool) :
    ∃ view, CellColumn.ofColumn (c.delivered nullHandling documents) = .ok view ∧
      ∀ (position : Nat) (hp : position < documents.length),
        view.cell position = .ok (c.cellOf nullHandling documents[position]) := by
  have hnull (position : Nat) (hp : position < documents.length) :
      (c.delivered nullHandling documents).isNull position =
        (nullHandling && c.isNull documents[position]) := by
    cases nullHandling with
    | false => rfl
    | true =>
      rw [Bool.true_and]
      exact isNull_select hlen hp
  have hvalues : (c.delivered nullHandling documents).values = c.values.select documents := by
    cases nullHandling <;> rfl
  obtain ⟨values, nulls⟩ := c
  cases values with
  | single t vs =>
    refine ⟨⟨(documents.filterMap (vs[·]?)).map t.cell, _⟩, by rw [CellColumn.ofColumn, hvalues]; rfl,
      fun position hp => ?_⟩
    have hdoc : documents[position] < vs.length := hlt _ (List.getElem_mem hp)
    have hnull' : recordsNull _ position = _ := hnull position hp
    simp only [CellColumn.cell, cellOf, hnull', List.getElem?_map, getElem?_filterMap_getElem? hlt hp,
      List.getElem?_eq_getElem hdoc, Option.map_some, Option.getD_some]
    split <;> rfl
  | multi t vs =>
    obtain ⟨toCell, htoCell⟩ := Option.isSome_iff_exists.1 hread
    refine ⟨⟨(documents.filterMap (vs[·]?)).map toCell, none⟩, ?_, fun position hp => ?_⟩
    · rw [CellColumn.ofColumn, hvalues]
      simp only [ColumnValues.select, htoCell]
    · have hdoc : documents[position] < vs.length := hlt _ (List.getElem_mem hp)
      simp only [CellColumn.cell, cellOf, recordsNull, htoCell, List.getElem?_map,
        getElem?_filterMap_getElem? hlt hp, List.getElem?_eq_getElem hdoc, Option.map_some,
        Option.bind_some, Option.getD_some, Option.any_none, Bool.false_eq_true, if_false]

end Column

end SegmentQuery
