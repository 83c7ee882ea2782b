import Mathlib.Data.List.Nodup
import SegmentQuery.Operator.Selection
import SegmentQuery.Proofs.Order.Cells
import SegmentQuery.Proofs.Order.Sorting
import SegmentQuery.Proofs.Segment.Scans
/-!
# Segments of one table

Segments of one table have columns of the same names and types, in any
order and in any roles. A query then fetches the same expressions from
each of them.
-/


namespace SegmentQuery

open Std (TransCmp LawfulEqCmp OrientedCmp)

namespace MemorySegment

/-- By every name there is a column of the same type in both segments, or
one in neither. -/
def SameColumns (a b : MemorySegment) : Prop :=
  ∀ name, (a.metadata name).toOption.map (fun m => (m.type, m.singleValue)) =
    (b.metadata name).toOption.map fun m => (m.type, m.singleValue)

variable {s t : MemorySegment}

theorem SameColumns.refl (s : MemorySegment) : SameColumns s s := fun _ => rfl

theorem SameColumns.symm (h : SameColumns s t) : SameColumns t s := fun name => (h name).symm

/-- Of segments that are pairwise alike any two are. -/
theorem SameColumns.of_pairwise {segments : List MemorySegment}
    (h : segments.Pairwise SameColumns) (hs : s ∈ segments) (ht : t ∈ segments) :
    SameColumns s t :=
  List.Pairwise.forall_of_forall_of_flip (fun s _ => .refl s) h (h.imp SameColumns.symm) hs ht

/-- What has a name has metadata. -/
theorem isSome_metadata_iff {name : String} :
    (s.metadata name).toOption.isSome ↔ name ∈ s.segment.columnNames := by
  show _ ↔ name ∈ s.columns.map MemoryColumn.name
  unfold ColumnSegment.metadata ColumnSegment.find
  cases hfind : s.columns.find? (·.name == name) with
  | none =>
    have hnone := List.find?_eq_none.1 hfind
    constructor
    · intro h
      exact nomatch h
    · intro h
      obtain ⟨c, hc, rfl⟩ := List.mem_map.1 h
      exact absurd (beq_self_eq_true c.name) (hnone c hc)
  | some c =>
    have hname : c.name = name := by simpa using List.find?_some hfind
    have hmem := List.mem_map_of_mem (f := MemoryColumn.name) (List.mem_of_find?_eq_some hfind)
    exact iff_of_true rfl (hname ▸ hmem)

/-- Segments of one table have the same column names. -/
theorem SameColumns.perm_columnNames (h : SameColumns s t) :
    s.segment.columnNames.Perm t.segment.columnNames := by
  refine (List.perm_ext_iff_of_nodup s.names_nodup t.names_nodup).2 fun name => ?_
  have hsome := congrArg Option.isSome (h name)
  simp only [Option.isSome_map] at hsome
  show name ∈ s.segment.columnNames ↔ name ∈ t.segment.columnNames
  rw [← isSome_metadata_iff, ← isSome_metadata_iff, hsome]

end MemorySegment

namespace ColumnType

@[simp] theorem isArray_ofStored (t : StoredType) : (ofStored t).isArray = false := by
  cases t <;> rfl

@[simp] theorem storedType_ofStored (t : StoredType) : (ofStored t).storedType = some t := by
  cases t <;> rfl

/-- The column type of an array is an array's. -/
theorem isArray_of_ofStoredArray? {t : StoredType} {type : ColumnType}
    (h : ofStoredArray? t = some type) : type.isArray := by
  have hall : (ofStoredArray? t).all isArray := by cases t <;> rfl
  rw [h] at hall
  exact hall

end ColumnType

namespace Selection

/-- A star stands for the same columns whatever their order. -/
theorem visibleColumns_congr {names names' : List String} (h : names.Perm names') :
    visibleColumns names = visibleColumns names' := by
  have hperm : (visibleColumns names).Perm (visibleColumns names') :=
    (List.mergeSort_perm _ _).trans ((h.filter _).trans (List.mergeSort_perm _ _).symm)
  have hsorted (names : List String) : Ascending Text.compare (visibleColumns names) :=
    ascending_mergeSort _
  refine hperm.eq_of_pairwise (fun a b _ _ hab hba => ?_) (hsorted names) (hsorted names')
  exact LawfulEqCmp.eq_of_compare (OrientedCmp.isLE_antisymm hab hba)

/-- **The same expressions are fetched from segments of one table.** -/
theorem fetchedExpressions_congr {names names' : List String} (h : names.Perm names')
    (select : List String) (items : List OrderItem) (limit : Nat) :
    fetchedExpressions select items limit names = fetchedExpressions select items limit names' := by
  rw [fetchedExpressions, fetchedExpressions, outputColumns, outputColumns, visibleColumns_congr h]

/-- A schema has a column for each expression. -/
theorem width_schema {segment : Segment} {expressions : List String} {output : Schema}
    (h : schema segment expressions = .ok output) : output.width = expressions.length := by
  obtain ⟨columns, hcolumns, houtput⟩ := Except.bind_eq_ok.1 h
  obtain rfl := Except.ok.inj houtput
  exact (Except.mapM_eq_ok.1 hcolumns).length_eq.symm

end Selection

end SegmentQuery
