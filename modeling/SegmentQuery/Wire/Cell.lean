import SegmentQuery.Cbor.View
import SegmentQuery.Cell.Basic
/-!
# Cells on the wire

A cell is a choice among the kinds of cells, a null by its name alone
and any other by its name and its value.
-/


namespace SegmentQuery

/-- Every kind of cell, in the order of their places on the wire. -/
def CellKind.all : List CellKind :=
  [.null, .int, .long, .float, .double, .bigDecimal, .string, .bytes, .intArray, .longArray,
    .floatArray, .doubleArray, .stringArray]

/-- The name of a kind on the wire. -/
def CellKind.wireName : CellKind → String
  | .null => "Null"
  | .int => "Int"
  | .long => "Long"
  | .float => "Float"
  | .double => "Double"
  | .bigDecimal => "BigDecimal"
  | .string => "String"
  | .bytes => "Bytes"
  | .intArray => "IntArray"
  | .longArray => "LongArray"
  | .floatArray => "FloatArray"
  | .doubleArray => "DoubleArray"
  | .stringArray => "StringArray"

namespace Cell

open Cbor

/-! ## Writing -/

/-- The item of a value, nothing for a null. -/
def content? : Cell → Option Item
  | .null => none
  | .int v => some (.ofInt v.toInt)
  | .long v => some (.ofInt v.toInt)
  | .float v => some (.float v.widen)
  | .double v => some (.float v)
  | .bigDecimal v => some (.text v.text)
  | .string v => some (.text v)
  | .bytes v => some (.bytes v)
  | .intArray vs => some (.array (vs.map fun v => .ofInt v.toInt))
  | .longArray vs => some (.array (vs.map fun v => .ofInt v.toInt))
  | .floatArray vs => some (.array (vs.map fun v => .float v.widen))
  | .doubleArray vs => some (.array (vs.map .float))
  | .stringArray vs => some (.array (vs.map .text))

def toItem (c : Cell) : Item :=
  let name := Item.text c.kind.wireName
  match c.content? with
  | none => name
  | some content => .ofMembers [(name, content)]

/-! ## Reading -/

/-- A cell of a kind, of which an item is the value. -/
def ofContent? (kind : CellKind) (i : Item) : Option Cell :=
  match kind with
  | .null => if i.isUnit then some .null else none
  | .int => i.int32?.map .int
  | .long => i.int64?.map .long
  | .float => i.single?.map .float
  | .double => i.double?.map .double
  | .bigDecimal => i.decimal?.map .bigDecimal
  | .string => i.text?.map .string
  | .bytes => i.bytes?.map .bytes
  | .intArray => (i.list? Item.int32?).map .intArray
  | .longArray => (i.list? Item.int64?).map .longArray
  | .floatArray => (i.list? Item.single?).map .floatArray
  | .doubleArray => (i.list? Item.double?).map .doubleArray
  | .stringArray => (i.list? Item.text?).map .stringArray

def ofItem? (i : Item) : Option Cell := do
  let (place, content) ← i.choice? (CellKind.all.map CellKind.wireName)
  let kind ← CellKind.all[place]?
  match content with
  | some content => ofContent? kind content
  | none => if kind = .null then some .null else none

end Cell

namespace Row

open Cbor

def toItem (row : Row) : Item := .array (row.map Cell.toItem)

def ofItem? (i : Item) : Option Row := i.list? Cell.ofItem?

end Row

end SegmentQuery
