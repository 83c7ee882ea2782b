import SegmentQuery.Cbor.Bytes
import SegmentQuery.Number.Double
import SegmentQuery.Number.Power
/-!
# CBOR items

The data items of a payload, and how they are written: definite lengths,
the shortest heads, and every number with a fraction in the narrowest of
three layouts that keeps its value.
-/


namespace SegmentQuery

namespace Cbor

/-- A data item. A negative integer `-1 - n` is kept as `n`, and a tag as
a layer around its item without its number. -/
inductive Item
  | unsigned (n : Nat)
  | negative (n : Nat)
  | bytes (content : List UInt8)
  | text (content : String)
  | array (items : List Item)
  /-- `brief` says whether the head byte itself holds the number of members. -/
  | map (brief : Bool) (members : List (Item × Item))
  | tagged (item : Item)
  | bool (value : Bool)
  | null
  | float (value : Double)

/-- The numbers that a head byte itself can hold are below this one. -/
def briefBound : Nat := 24

namespace Item

/-- An integer as an item. -/
def ofInt (i : Int) : Item := if 0 ≤ i then .unsigned i.toNat else .negative (-1 - i).toNat

/-- A map as it is written. -/
def ofMembers (members : List (Item × Item)) : Item :=
  .map (decide (members.length < briefBound)) members

end Item

/-! ## Writing -/

/-- A head: a major type and a number in the fewest bytes. -/
def head (major n : Nat) : List UInt8 :=
  let first (info : Nat) : UInt8 := UInt8.ofNat (32 * major + info)
  if n < briefBound then [first n]
  else if n < 256 then first 24 :: Bytes.bigEndian 1 n
  else if n < 65536 then first 25 :: Bytes.bigEndian 2 n
  else if n < Number.bound32 then first 26 :: Bytes.bigEndian 4 n
  else first 27 :: Bytes.bigEndian 8 n

open Number in
/-- The pattern of a double in a layout, if the layout keeps its value. -/
def patternIn? (l : Layout) (x : Double) : Option Nat :=
  let pattern := l.pattern x.datum
  if Double.ofDatum (l.datum pattern) = Double.ofDatum x.datum then some pattern else none

open Number in
/-- A double in the narrowest layout that keeps its value. -/
def writeFloat (x : Double) : List UInt8 :=
  match patternIn? .half x with
  | some pattern => 0xf9 :: Bytes.bigEndian 2 pattern
  | none =>
    match patternIn? .single x with
    | some pattern => 0xfa :: Bytes.bigEndian 4 pattern
    | none => 0xfb :: Bytes.bigEndian 8 x.bits.toNat

mutual

/-- The bytes of an item. -/
def Item.write : Item → List UInt8
  | .unsigned n => head 0 n
  | .negative n => head 1 n
  | .bytes content => head 2 content.length ++ content
  | .text content => head 3 (Bytes.ofText content).length ++ Bytes.ofText content
  | .array items => head 4 items.length ++ writeAll items
  | .map _ members => head 5 members.length ++ writeMembers members
  | .tagged item => head 6 0 ++ item.write
  | .bool value => [if value then 0xf5 else 0xf4]
  | .null => [0xf6]
  | .float value => writeFloat value

/-- The bytes of items, one after the other. -/
def writeAll : List Item → List UInt8
  | [] => []
  | item :: rest => item.write ++ writeAll rest

/-- The bytes of keys and values, one after the other. -/
def writeMembers : List (Item × Item) → List UInt8
  | [] => []
  | member :: rest => writeMember member ++ writeMembers rest

def writeMember : Item × Item → List UInt8
  | (key, value) => key.write ++ value.write

end

end Cbor

end SegmentQuery
