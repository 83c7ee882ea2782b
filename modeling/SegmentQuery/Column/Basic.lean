import SegmentQuery.DocSet
import SegmentQuery.Error.Basic
/-!
# Columns

One column of a block: values of one stored type, one value or one array
per document, and perhaps a null set of document positions. A column
without a null set holds no null. `slice` and `take` copy documents out
of a column and carry the null set along; a position that the column
does not have makes them fail.
-/


namespace SegmentQuery

/-- The values of a column, one entry per document. -/
inductive ColumnValues
  | single (type : StoredType) (values : List type.Element)
  | multi (type : StoredType) (values : List (List type.Element))

namespace ColumnValues

def type : ColumnValues → StoredType
  | .single t _ => t
  | .multi t _ => t

def isSingleValue : ColumnValues → Bool
  | .single _ _ => true
  | .multi _ _ => false

/-- The number of documents. -/
def length : ColumnValues → Nat
  | .single _ vs => vs.length
  | .multi _ vs => vs.length

/-- The documents at `positions`, in that order; positions past the end
are skipped. -/
def select (positions : List Nat) : ColumnValues → ColumnValues
  | .single t vs => .single t (positions.filterMap (vs[·]?))
  | .multi t vs => .multi t (positions.filterMap (vs[·]?))

/-- The documents from `start` up to `stop`. -/
def range (start stop : Nat) : ColumnValues → ColumnValues
  | .single t vs => .single t ((vs.take stop).drop start)
  | .multi t vs => .multi t ((vs.take stop).drop start)

theorem length_select {values : ColumnValues} {positions : List Nat}
    (h : ∀ p ∈ positions, p < values.length) :
    (values.select positions).length = positions.length := by
  have key {α : Type} (vs : List α) (ps : List Nat) (hp : ∀ p ∈ ps, p < vs.length) :
      (ps.filterMap (vs[·]?)).length = ps.length := by
    induction ps with
    | nil => rfl
    | cons p ps ih =>
      have hlt := hp p List.mem_cons_self
      rw [List.filterMap_cons, List.getElem?_eq_getElem hlt]
      simp [ih fun q hq => hp q (List.mem_cons_of_mem _ hq)]
  cases values with
  | single t vs => exact key vs positions h
  | multi t vs => exact key vs positions h

end ColumnValues

/-- A column of a block. Null positions count from the block's first
document; positions past the last one mean nothing. -/
structure Column where
  values : ColumnValues
  nulls : Option DocSet

namespace Column

def type (c : Column) : StoredType := c.values.type

def isSingleValue (c : Column) : Bool := c.values.isSingleValue

def length (c : Column) : Nat := c.values.length

def isEmpty (c : Column) : Bool := c.length == 0

/-- The same values with nothing null. -/
def dropNulls (c : Column) : Column := { c with nulls := none }

/-! ## Nulls -/

/-- Whether a null set records a position. Null sets record 32 bits of
it. -/
def recordsNull (nulls : Option DocSet) (position : Nat) : Bool :=
  nulls.any (·.contains (position % Number.bound32))

def isNull (c : Column) (position : Nat) : Bool := recordsNull c.nulls position

/-- The size of the null set. -/
def nullCount (c : Column) : Nat := (c.nulls.map DocSet.size).getD 0

/-- Whether as many nulls are recorded as the first `n` positions
need. -/
def allNull (c : Column) (n : Nat) : Bool := decide (0 < n) && decide (n ≤ c.nullCount)

/-! ## Copies

Null sets record 32 bits of a position here too: of a position asked for,
of its place in the copy, and of the ends of a range. -/

/-- Where the nulls among `positions` are copied to. -/
def selectNulls (nulls : DocSet) (positions : List Nat) : DocSet :=
  .ofList ((positions.zipIdx.filter fun p => nulls.contains (p.1 % Number.bound32)).map
    (·.2 % Number.bound32))

/-- The recorded positions from `start` up to `stop`, counted from
`start`. -/
def rangeNulls (nulls : DocSet) (start stop : Nat) : DocSet :=
  .ofList ((nulls.toList.filter fun p =>
    start % Number.bound32 ≤ p ∧ p < stop % Number.bound32).map (· - start % Number.bound32))

/-- The documents at `positions`. Position `i` of the copy is null
exactly when the position it was taken from is. -/
def select (c : Column) (positions : List Nat) : Column where
  values := c.values.select positions
  nulls := c.nulls.map (selectNulls · positions)

/-- `select`, or none when a position is past the end. -/
def take? (c : Column) (positions : List Nat) : Option Column :=
  if positions.all (· < c.length) then some (c.select positions) else none

/-- The documents from `start` up to `stop`, or none when that is no
range of the column. -/
def slice? (c : Column) (start stop : Nat) : Option Column :=
  if start ≤ stop ∧ stop ≤ c.length then
    some
      { values := c.values.range start stop
        nulls := c.nulls.map (rangeNulls · start stop) }
  else none

end Column

end SegmentQuery
