import SegmentQuery.Cbor.Read
import SegmentQuery.Result.Table
import SegmentQuery.Wire.Cell
import SegmentQuery.Wire.NullSet
/-!
# Tables on the wire

A data table is a record of its schema, rows, null sets, metadata and
exceptions. A payload is refused unread when it is longer than the
reader's limit.
-/


namespace SegmentQuery

open Cbor

/-! ## Schemas -/

/-- The name of a column type on the wire. -/
def ColumnType.wireName : ColumnType → String
  | .int => "Int"
  | .long => "Long"
  | .float => "Float"
  | .double => "Double"
  | .bigDecimal => "BigDecimal"
  | .string => "String"
  | .bytes => "Bytes"
  | .intArray => "IntArray"
  | .longArray => "LongArray"
  | .floatArray => "FloatArray"
  | .doubleArray => "DoubleArray"
  | .stringArray => "StringArray"
  | .object => "Object"

/-- The name of a role on the wire. -/
def FieldKind.wireName : FieldKind → String
  | .dimension => "Dimension"
  | .metric => "Metric"

/-- A choice without content, by its place among `names`. -/
def Cbor.Item.plainChoice? (names : List String) (i : Item) : Option Nat := do
  let (place, content) ← i.choice? names
  if content.all Item.isUnit then return place else none

def ColumnType.ofItem? (i : Item) : Option ColumnType :=
  (i.plainChoice? (ColumnType.all.map ColumnType.wireName)).bind (ColumnType.all[·]?)

def FieldKind.ofItem? (i : Item) : Option FieldKind :=
  (i.plainChoice? (FieldKind.all.map FieldKind.wireName)).bind (FieldKind.all[·]?)

/-- A record as it is written. -/
def Cbor.Item.ofFields (fields : List (String × Item)) : Item :=
  .ofMembers (fields.map fun (name, value) => (.text name, value))

namespace ResultColumn

def toItem (c : ResultColumn) : Item :=
  .ofFields [("name", .text c.name), ("data_type", .text c.type.wireName),
    ("field_kind", .text c.role.wireName)]

def ofItem? (i : Item) : Option ResultColumn :=
  match i.fields? ["name", "data_type", "field_kind"] with
  | some [name, type, role] => do
    return ⟨← name.text?, ← ColumnType.ofItem? type, ← FieldKind.ofItem? role⟩
  | _ => none

end ResultColumn

namespace Schema

def toItem (s : Schema) : Item :=
  .ofFields [("columns", .array (s.columns.map ResultColumn.toItem))]

def ofItem? (i : Item) : Option Schema :=
  match i.fields? ["columns"] with
  | some [columns] => (columns.list? ResultColumn.ofItem?).map Schema.mk
  | _ => none

end Schema

/-! ## The other parts -/

namespace NullSet

def toItem (s : NullSet) : Item := .bytes s.toBytes

def ofItem? (i : Item) : Option NullSet := i.bytes?.bind ofBytes?

end NullSet

namespace Metadata

def toItem (m : Metadata) : Item :=
  .ofMembers (m.entries.map fun (name, text) => (.text name, .text text))

def ofItem? (i : Item) : Option Metadata := (i.members? Item.text? Item.text?).map ofList

end Metadata

namespace ProcessingException

def toItem (x : ProcessingException) : Item :=
  .ofFields [("error_code", .unsigned x.code), ("message", .text x.message)]

def ofItem? (i : Item) : Option ProcessingException :=
  match i.fields? ["error_code", "message"] with
  | some [code, message] => do return ⟨← code.natural? Number.bound32, ← message.text?⟩
  | _ => none

end ProcessingException

/-! ## Tables -/

namespace DataTable

def toItem (t : DataTable) : Item :=
  .ofFields [("schema", t.schema.toItem), ("rows", .array (t.rows.map Row.toItem)),
    ("null_bitmaps", .array (t.nulls.map NullSet.toItem)), ("metadata", t.metadata.toItem),
    ("exceptions", .array (t.exceptions.map ProcessingException.toItem))]

def ofItem? (i : Item) : Option DataTable :=
  match i.fields? ["schema", "rows", "null_bitmaps", "metadata", "exceptions"] with
  | some [schema, rows, nulls, metadata, exceptions] => do
    return {
      schema := ← Schema.ofItem? schema
      rows := ← rows.list? Row.ofItem?
      nulls := ← nulls.list? NullSet.ofItem?
      metadata := ← Metadata.ofItem? metadata
      exceptions := ← exceptions.list? ProcessingException.ofItem? }
  | _ => none

end DataTable

/-! ## Payloads -/

namespace Payload

/-- The longest payload that is read unless a reader says otherwise. -/
def defaultLimit : Nat := 64 * 1024 * 1024

/-- Read a payload of at most `limit` bytes. -/
def read {α : Type} (ofItem? : Item → Option α) (limit : Nat) (bytes : List UInt8) :
    Except PayloadError α :=
  if limit < bytes.length then .error (.tooLarge bytes.length limit)
  else match (Item.ofBytes? bytes).bind ofItem? with
    | some a => .ok a
    | none => .error (.decode "malformed payload")

end Payload

def DataTable.toBytes (t : DataTable) : List UInt8 := t.toItem.write

def DataTable.ofBytes (bytes : List UInt8) : Except QueryError DataTable :=
  (Payload.read DataTable.ofItem? Payload.defaultLimit bytes).mapError .payload

end SegmentQuery
