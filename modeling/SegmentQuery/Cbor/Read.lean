import SegmentQuery.Cbor.Item
/-!
# Reading CBOR

`Item.ofBytes?` reads one item that takes up all bytes. Beside what is
written it accepts heads longer than need be, indefinite lengths, tags
and the undefined value, which reads as null. Arrays, maps and tags may
nest 127 deep.
-/


namespace SegmentQuery

namespace Cbor

/-- What a reader makes of the front of a byte list. -/
abbrev Reader (α : Type) := List UInt8 → Option (α × List UInt8)

/-! ## Heads -/

/-- The byte that ends an indefinite length. -/
def breakByte : UInt8 := 0xff

/-- The part of a head byte that announces an indefinite length. -/
def indefinite : Nat := 31

/-- The number of a head, of which `info` is the part in the head
byte. -/
def argument (info : Nat) : Reader Nat := fun bytes =>
  if info < briefBound then some (info, bytes)
  else match info with
    | 24 => Bytes.takeBigEndian? 1 bytes
    | 25 => Bytes.takeBigEndian? 2 bytes
    | 26 => Bytes.takeBigEndian? 4 bytes
    | 27 => Bytes.takeBigEndian? 8 bytes
    | _ => none

/-- Read up to a break. -/
def untilBreak {α : Type} (read : Reader α) (bytes : List UInt8) : Option (List α × List UInt8) :=
  match bytes with
  | [] => none
  | b :: rest =>
    if b = breakByte then some ([], rest)
    else match read (b :: rest) with
      | none => none
      | some (a, more) =>
        if more.length < (b :: rest).length then
          (untilBreak read more).map fun (as, rest) => (a :: as, rest)
        else none
termination_by bytes.length
decreasing_by
  simp only [List.length_cons] at *
  omega

/-! ## Scalars -/

/-- A string of definite length. -/
def definiteString (info : Nat) : Reader (List UInt8) := fun bytes => do
  let (n, rest) ← argument info bytes
  Bytes.take? n rest

/-- A piece of an indefinite string: a definite one of the same major
type. -/
def chunk (major : Nat) : Reader (List UInt8)
  | [] => none
  | b :: rest => if b.toNat / 32 = major then definiteString (b.toNat % 32) rest else none

/-- A byte or text string, its pieces joined. -/
def string (major info : Nat) : Reader (List UInt8) := fun bytes =>
  if info = indefinite then
    (untilBreak (chunk major) bytes).map fun (pieces, rest) => (pieces.flatten, rest)
  else definiteString info bytes

open Number in
/-- A number in one of the three layouts. -/
def float (l : Layout) (width : Nat) : Reader Item := fun bytes =>
  (Bytes.takeBigEndian? width bytes).map fun (pattern, rest) =>
    (.float (Double.ofDatum (l.datum pattern)), rest)

/-- An item that holds no items. -/
def scalar (major info : Nat) : Reader Item := fun bytes =>
  match major with
  | 0 => (argument info bytes).map fun (n, rest) => (.unsigned n, rest)
  | 1 => (argument info bytes).map fun (n, rest) => (.negative n, rest)
  | 2 => (string 2 info bytes).map fun (content, rest) => (.bytes content, rest)
  | 3 => do
    let (content, rest) ← string 3 info bytes
    return (.text (← Bytes.text? content), rest)
  | 7 =>
    match info with
    | 20 => some (.bool false, bytes)
    | 21 => some (.bool true, bytes)
    | 22 | 23 => some (.null, bytes)
    | 25 => float .half 2 bytes
    | 26 => float .single 4 bytes
    | 27 => float .double 8 bytes
    | _ => none
  | _ => none

/-! ## Items -/

/-- A key and a value. -/
def member (read : Reader Item) : Reader (Item × Item) := fun bytes => do
  let (key, rest) ← read bytes
  let (value, rest) ← read rest
  return ((key, value), rest)

/-- As many elements as the head says, or up to a break. -/
def elements {α : Type} (read : Reader α) (info : Nat) : Reader (List α) := fun bytes =>
  if info = indefinite then untilBreak read bytes
  else do
    let (n, rest) ← argument info bytes
    Bytes.times read n rest

/-- An item that holds items, which `read` reads. -/
def container (read : Reader Item) (major info : Nat) : Reader Item := fun bytes =>
  match major with
  | 4 => (elements read info bytes).map fun (items, rest) => (.array items, rest)
  | 5 =>
    (elements (member read) info bytes).map fun (members, rest) =>
      (.map (decide (info < briefBound)) members, rest)
  | 6 => do
    let (_, rest) ← argument info bytes
    let (item, rest) ← read rest
    return (.tagged item, rest)
  | _ => none

/-- An item that nests at most `depth` deep. -/
def item : (depth : Nat) → Reader Item
  | _, [] => none
  | 0, b :: rest => scalar (b.toNat / 32) (b.toNat % 32) rest
  | depth + 1, b :: rest =>
    let major := b.toNat / 32
    let info := b.toNat % 32
    if 4 ≤ major ∧ major ≤ 6 then container (item depth) major info rest
    else scalar major info rest

/-- The deepest nesting that is read. -/
def maxDepth : Nat := 127

/-- The item that bytes spell. -/
def Item.ofBytes? (bytes : List UInt8) : Option Item :=
  match item maxDepth bytes with
  | some (i, []) => some i
  | _ => none

end Cbor

end SegmentQuery
