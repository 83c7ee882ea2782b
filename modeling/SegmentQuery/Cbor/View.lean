import SegmentQuery.Cbor.Item
import SegmentQuery.Decimal.Text
import SegmentQuery.Number.Shortest
/-!
# What items stand for

Readers are lenient about spelling: tags are ignored, whole numbers stand
for floating-point ones, byte strings and texts for one another, and
decimals may be texts or numbers. A record is a map from field names, or
the array of its fields; a choice is a name alone, a map of one member,
or an array of a name and a content. Names may be given by their place.
-/


namespace SegmentQuery

namespace Cbor

namespace Item

/-- The item without the tags around it. -/
def untagged : Item → Item
  | .tagged item => item.untagged
  | item => item

/-! ## Scalars -/

/-- A whole number. Negative ones reach down to `-2 ^ 63`. -/
def integer? (i : Item) : Option Int :=
  match i.untagged with
  | .unsigned n => some n
  | .negative n => if n < Number.bound64 / 2 then some (-1 - (n : Int)) else none
  | _ => none

def int32? (i : Item) : Option Int32 :=
  (i.integer?.filter fun n => Int32.minValue.toInt ≤ n ∧ n ≤ Int32.maxValue.toInt).map Int32.ofInt

def int64? (i : Item) : Option Int64 :=
  (i.integer?.filter fun n => Int64.minValue.toInt ≤ n ∧ n ≤ Int64.maxValue.toInt).map Int64.ofInt

/-- A natural number below a bound. -/
def natural? (bound : Nat) (i : Item) : Option Nat :=
  (i.integer?.filter fun n : Int => 0 ≤ n ∧ n < bound).map Int.toNat

def double? (i : Item) : Option Double :=
  match i.untagged with
  | .float value => some value
  | other => other.integer?.map Double.ofInt

def single? (i : Item) : Option Single :=
  match i.untagged with
  | .float value => some value.narrow
  | other => other.integer?.map Single.ofInt

def decimal? (i : Item) : Option Decimal :=
  match i.untagged with
  | .text content => (Decimal.read content.toList).toOption
  | .float value => (Decimal.ofPlain value.text.toList).toOption
  | other => other.integer?.bind fun n => Decimal.ofParts? n 0

def text? (i : Item) : Option String :=
  match i.untagged with
  | .text content => some content
  | .bytes content => Bytes.text? content
  | _ => none

/-- A list, read element by element. -/
def list? {α : Type} (read : Item → Option α) (i : Item) : Option (List α) :=
  match i.untagged with
  | .array items => items.mapM read
  | _ => none

def bytes? (i : Item) : Option (List UInt8) :=
  match i.untagged with
  | .bytes content => some content
  | .text content => some (Bytes.ofText content)
  | other => (other.list? (natural? 256)).map (·.map UInt8.ofNat)

/-- Keys and values. -/
def members? {α β : Type} (key : Item → Option α) (value : Item → Option β) (i : Item) :
    Option (List (α × β)) :=
  match i.untagged with
  | .map _ members => members.mapM fun (k, v) => do return (← key k, ← value v)
  | _ => none

/-- Nothing, where a content could be. -/
def isUnit (i : Item) : Bool :=
  match i.untagged with
  | .null => true
  | _ => false

/-! ## Names -/

/-- The place of a name among `names`, or that it is none of them;
nothing when the item cannot be a name. -/
def place? (names : List String) (i : Item) : Option (Option Nat) :=
  match i.untagged with
  | .text content => some (names.findIdx? (· == content))
  | .bytes content => some (names.findIdx? (Bytes.ofText · == content))
  | .unsigned n => some (if n < names.length then some n else none)
  | _ => none

/-- The fields of a record, in the order of their names. A map must have
every name once and may have other members, which are ignored; an array
must have exactly the fields. -/
def fields? (names : List String) (i : Item) : Option (List Item) :=
  match i.untagged with
  | .array items => if items.length = names.length then some items else none
  | .map _ members => do
    let placed ← members.mapM fun (key, value) => (key.place? names).map (·, value)
    (List.range names.length).mapM fun place =>
      match placed.filter fun p => p.1 == some place with
      | [(_, value)] => some value
      | _ => none
  | _ => none

/-- A choice by its place among `names`, and its content if there is
one. Tags are allowed on a name alone, and a map must be the shortest of
one member. -/
def choice? (names : List String) (i : Item) : Option (Nat × Option Item) :=
  match i with
  | .map true [(name, content)] => (name.place? names).join.map (·, some content)
  | .array [name, content] => (name.place? names).join.map (·, some content)
  | other => (other.place? names).join.map (·, none)

end Item

end Cbor

end SegmentQuery
