import SegmentQuery.Proofs.Result.Metadata
import SegmentQuery.Proofs.Result.Tables
import SegmentQuery.Proofs.Wire.Cells
import SegmentQuery.Proofs.Wire.NullSets
/-!
# Tables read back

A table that was made of rows travels with all its parts: schema, rows,
null rows, statistics and exceptions. The rows come back cell by cell as
cells travel, null exactly where they were null, since the null sets and
not the placeholders tell.
-/


namespace SegmentQuery

open Cbor
open Number (bound32 bound64)

variable (depth : Nat)

/-! ## Schemas -/

theorem ColumnType.travels_wireName (type : ColumnType) :
    Travels depth (.text type.wireName) ofItem? type :=
  travels_plainChoice depth (by decide) (by cases type <;> decide)

theorem FieldKind.travels_wireName (role : FieldKind) :
    Travels depth (.text role.wireName) ofItem? role :=
  travels_plainChoice depth (by decide) (by cases role <;> decide)

theorem ResultColumn.travels_toItem (c : ResultColumn) :
    Travels (depth + 1) c.toItem ofItem? c := by
  obtain ⟨name, hname, hnameView⟩ := travels_text depth c.name
  obtain ⟨type, htype, htypeView⟩ := c.type.travels_wireName depth
  obtain ⟨role, hrole, hroleView⟩ := c.role.travels_wireName depth
  obtain ⟨i, hi, hfields⟩ : ∃ i, Carries (depth + 1) c.toItem i ∧
      i.fields? ["name", "data_type", "field_kind"] = some [name, type, role] :=
    carries_ofFields depth (by decide) (by rfl) (.cons hname (.cons htype (.cons hrole .nil)))
  exact ⟨i, hi, by simp [ofItem?, hfields, hnameView, htypeView, hroleView]⟩

theorem Schema.travels_toItem (s : Schema) : Travels (depth + 3) s.toItem ofItem? s := by
  obtain ⟨columns, hcolumns, hview⟩ :=
    travels_list (g := id) (depth + 1) fun c (_ : c ∈ s.columns) => c.travels_toItem depth
  obtain ⟨i, hi, hfields⟩ : ∃ i, Carries (depth + 3) s.toItem i ∧
      i.fields? ["columns"] = some [columns] :=
    carries_ofFields (depth + 2) (by decide) (by rfl) (.cons hcolumns .nil)
  exact ⟨i, hi, by simp [ofItem?, hfields, hview]⟩

/-! ## The other parts -/

/-- A set of row numbers of 32 bits travels. -/
theorem NullSet.travels_toItem {s : DocSet} (hs : ∀ n ∈ s.toList, n < bound32) :
    Travels depth (ofDocSet s).toItem ofItem? (ofDocSet s) := by
  obtain ⟨i, hi, hview⟩ := travels_bytes depth (ofDocSet s).toBytes
  exact ⟨i, hi, by rw [ofItem?, hview, Option.bind_some, ofBytes?_toBytes hs]⟩

/-- Metadata in order travels. -/
theorem Metadata.travels_toItem {m : Metadata} (h : Sorted m.entries) :
    Travels (depth + 1) m.toItem ofItem? m := by
  have hread : (m.toItem.members? Item.text? Item.text?) = some m.entries := by
    show (m.entries.map fun entry => (Item.text entry.1, Item.text entry.2)).mapM _ = _
    refine mapM_eq_some ?_
    rw [List.forall₂_map_left_iff, List.forall₂_same]
    exact fun entry _ => rfl
  refine ⟨m.toItem, carries_ofMembers depth ?_, ?_⟩
  · rw [List.forall₂_same]
    intro member hmember
    obtain ⟨entry, -, rfl⟩ := List.mem_map.1 hmember
    exact ⟨carries_text depth entry.1, carries_text depth entry.2⟩
  · rw [ofItem?, hread, Option.map_some, ofList_entries h]

theorem ProcessingException.travels_toItem {x : ProcessingException} (hx : x.code < bound32) :
    Travels (depth + 1) x.toItem ofItem? x := by
  obtain ⟨code, hcode, hcodeView⟩ := travels_natural depth hx (by decide)
  obtain ⟨message, hmessage, hmessageView⟩ := travels_text depth x.message
  obtain ⟨i, hi, hfields⟩ : ∃ i, Carries (depth + 1) x.toItem i ∧
      i.fields? ["error_code", "message"] = some [code, message] :=
    carries_ofFields depth (by decide) (by rfl) (.cons hcode (.cons hmessage .nil))
  exact ⟨i, hi, by simp [ofItem?, hfields, hcodeView, hmessageView]⟩

namespace DataTable

/-! ## Tables -/

/-- What of a table travels. -/
def carried (t : DataTable) : DataTable := { t with rows := t.rows.map (·.map Cell.carried) }

/-- What the tables that servers make have in common: null sets of row
numbers of 32 bits, metadata in order and codes of 32 bits. -/
structure Portable (t : DataTable) : Prop where
  nulls : ∀ set ∈ t.nulls, ∃ s : DocSet, (∀ n ∈ s.toList, n < bound32) ∧ set = .ofDocSet s
  metadata : Metadata.Sorted t.metadata.entries
  codes : ∀ x ∈ t.exceptions, x.code < bound32

/-- **Every table that is portable travels.** -/
theorem travels_toItem {t : DataTable} (h : t.Portable) :
    Travels (depth + 5) t.toItem ofItem? t.carried := by
  obtain ⟨schema, hschema, hschemaView⟩ := t.schema.travels_toItem (depth + 1)
  obtain ⟨rows, hrows, hrowsView⟩ :=
    travels_list (depth + 3) fun row (_ : row ∈ t.rows) => Row.travels_toItem depth row
  obtain ⟨nulls, hnulls, hnullsView⟩ :=
    travels_list (g := id) (depth + 3) fun set (hset : set ∈ t.nulls) => by
      obtain ⟨s, hs, rfl⟩ := h.nulls set hset
      exact NullSet.travels_toItem (depth + 3) hs
  obtain ⟨metadata, hmetadata, hmetadataView⟩ := Metadata.travels_toItem (depth + 3) h.metadata
  obtain ⟨exceptions, hexceptions, hexceptionsView⟩ :=
    travels_list (g := id) (depth + 3) fun x (hx : x ∈ t.exceptions) =>
      ProcessingException.travels_toItem (depth + 2) (h.codes x hx)
  obtain ⟨i, hi, hfields⟩ : ∃ i, Carries (depth + 5) t.toItem i ∧
      i.fields? ["schema", "rows", "null_bitmaps", "metadata", "exceptions"] =
        some [schema, rows, nulls, metadata, exceptions] :=
    carries_ofFields (depth + 4) (by decide) (by rfl)
      (.cons hschema (.cons hrows (.cons hnulls (.cons hmetadata (.cons hexceptions .nil)))))
  exact ⟨i, hi, by simp [ofItem?, hfields, hschemaView, hrowsView, hnullsView, hmetadataView,
    hexceptionsView, carried]⟩

/-- **A portable table is read back from its payload**, unless it is too
long. -/
theorem ofBytes_toBytes {t : DataTable} (h : t.Portable)
    (hsize : t.toBytes.length ≤ Payload.defaultLimit) : ofBytes t.toBytes = .ok t.carried := by
  obtain ⟨i, hi, hview⟩ := travels_toItem 122 h
  have hlen : t.toItem.write.length < bound64 := Nat.lt_of_le_of_lt hsize (by decide)
  have hread := hi hlen []
  rw [List.append_nil] at hread
  have hitem : Item.ofBytes? t.toBytes = some i := by
    rw [Item.ofBytes?, toBytes, show item maxDepth t.toItem.write = _ from hread]
  rw [ofBytes, Payload.read, if_neg (Nat.not_lt.2 hsize), hitem, Option.bind_some, hview]
  rfl

end DataTable

end SegmentQuery
