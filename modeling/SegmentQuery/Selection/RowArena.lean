import SegmentQuery.Cell.Basic
/-!
# Row storage

Rows at numbered places. A place that is released is used again before a
new one is opened, the place released last first. Taking a row out
leaves an empty one behind.
-/


namespace SegmentQuery

/-- Rows by place, and the released places, last one first. -/
structure RowArena where
  rows : Array Row
  free : List Nat

namespace RowArena

def empty : RowArena := ⟨#[], []⟩

def get (a : RowArena) (place : Nat) : Row := a.rows.getD place []

/-- Write over the row at a place. -/
def set (a : RowArena) (place : Nat) (row : Row) : RowArena :=
  { a with rows := a.rows.setIfInBounds place row }

/-- Store a row; yields its place. -/
def insert (a : RowArena) (row : Row) : Nat × RowArena :=
  match a.free with
  | place :: free => (place, { a.set place row with free := free })
  | [] => (a.rows.size, { a with rows := a.rows.push row })

def release (a : RowArena) (place : Nat) : RowArena := { a with free := place :: a.free }

/-- Take the rows at some places out, one after the other. -/
def takeAll (a : RowArena) : List Nat → List Row
  | [] => []
  | place :: rest => a.get place :: (a.set place []).takeAll rest

end RowArena

end SegmentQuery
