import SegmentQuery.Cell.Key
import SegmentQuery.Column.Basic
import SegmentQuery.Progress
import SegmentQuery.TopK
/-!
# Distinct values

Up to `limit` different values of one stored type, with null as one more
value where null handling is on. Without an order the first values seen
are kept, and a full collection is saturated: nothing changes it any
more. With an order the best values are kept, nulls last, and a value
that is evicted makes room in the set of seen values too.
-/


namespace SegmentQuery

/-- The values kept. -/
inductive DistinctStore
  /-- In the order in which they were first seen. -/
  | firstSeen (values : List (Option Key))
  /-- The best ones in one direction. -/
  | best (heap : TopK (Option Key)) (direction : Direction)

structure DistinctValues where
  type : StoredType
  limit : Nat
  nullHandling : Bool
  seen : List (Option Key)
  store : DistinctStore

namespace DistinctValues

/-- The order of values, null last in either direction. -/
def compareValues (direction : Direction) : Option Key → Option Key → Ordering
  | none, none => .eq
  | none, some _ => .gt
  | some _, none => .lt
  | some l, some r => direction.apply (l.compare r)

/-- Whether two values are one. -/
def sameValue (left right : Option Key) : Bool := compareValues .asc left right == .eq

def new (type : StoredType) (order : Option Direction) (limit : Nat) (nullHandling : Bool) :
    DistinctValues where
  type := type
  limit := limit
  nullHandling := nullHandling
  seen := []
  store := match order with
    | none => .firstSeen []
    | some direction => .best (.empty limit) direction

/-- A collection for a column; arrays have no distinct values. -/
def forColumn (type : StoredType) (singleValue : Bool) (order : Option Direction) (limit : Nat)
    (nullHandling : Bool) : Except QueryError DistinctValues :=
  if singleValue then .ok (new type order limit nullHandling)
  else .error (.unsupportedType .distinctValues type singleValue)

def size (d : DistinctValues) : Nat := d.seen.length

def isOrdered (d : DistinctValues) : Bool :=
  match d.store with
  | .firstSeen _ => false
  | .best _ _ => true

/-- Whether no further value can change the collection. -/
def isSaturated (d : DistinctValues) : Bool := !d.isOrdered && decide (d.limit ≤ d.size)

def hasSeen (d : DistinctValues) (value : Option Key) : Bool := d.seen.any (sameValue value)

/-- Offer one value. -/
def add (d : DistinctValues) (value : Option Key) : DistinctValues :=
  if d.isSaturated || d.hasSeen value then d
  else match d.store with
    | .firstSeen values =>
      { d with seen := value :: d.seen, store := .firstSeen (values ++ [value]) }
    | .best heap direction =>
      let (outcome, heap) := heap.offer (compareValues direction) value
      { d with
        seen := match outcome with
          | .inserted => value :: d.seen
          | .replaced evicted => value :: d.seen.eraseP (sameValue evicted)
          | .rejected _ => d.seen
        store := .best heap direction }

/-- The values kept, best first where there is an order. -/
def values (d : DistinctValues) : List (Option Key) :=
  match d.store with
  | .firstSeen values => values
  | .best heap direction => heap.sorted (compareValues direction)

/-- The values kept, as cells. -/
def cells (d : DistinctValues) : List Cell :=
  d.values.map fun value => match value with
    | none => .null
    | some key => key.cell

/-- The values kept, as rows of one cell. -/
def rows (d : DistinctValues) : List Row := d.cells.map ([·])

/-! ## Input -/

/-- The value at one position of a column of the collection's type. -/
def readAt (d : DistinctValues) (c : Column) (position : Nat) : Except QueryError (Option Key) :=
  let mismatch := QueryError.unsupportedType .distinctValues c.type c.isSingleValue
  if d.nullHandling && c.isNull position then .ok none
  else match c.values with
    | .single t vs =>
      if t = d.type then
        match vs[position]? with
        | some v => .ok (some (t.cell v).key)
        | none => .error mismatch
      else .error mismatch
    | .multi _ _ => .error mismatch

/-- Take in positions of a column in order, until the collection is
saturated. -/
def processFrom (c : Column) (d : DistinctValues) : List Nat → Progress QueryError DistinctValues
  | [] => .done d
  | position :: rest =>
    match d.readAt c position with
    | .error e => .stopped d e
    | .ok value =>
      if (d.add value).isSaturated then .done (d.add value) else processFrom c (d.add value) rest

/-- Take in the first `length` positions of a column. -/
def process (d : DistinctValues) (c : Column) (length : Nat) : Progress QueryError DistinctValues :=
  processFrom c d (List.range (min length c.length))

/-- Take in one cell. A null is dropped unless null handling is on. -/
def addCell (d : DistinctValues) (cell : Cell) : Except QueryError DistinctValues :=
  if cell.isNull then .ok (if d.nullHandling then d.add none else d)
  else if cell.storedType = some d.type ∧ !cell.isMultiValue then .ok (d.add (some cell.key))
  else .error (.distinctCell d.type cell.kind)

/-- Take in another collection's values, which must be of the same
type. -/
def merge (target source : DistinctValues) : Except QueryError DistinctValues :=
  if target.type = source.type then .ok (source.values.foldl add target)
  else .error (.mergeDistinct source.type target.type)

end DistinctValues

end SegmentQuery
