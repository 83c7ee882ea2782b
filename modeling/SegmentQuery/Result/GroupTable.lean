import SegmentQuery.Cell.Key
/-!
# Group tables

Intermediate aggregates per group, in the order of the groups' tuples.
-/


namespace SegmentQuery

/-- Aggregates by tuple, tuples ascending and all different. -/
structure GroupTable where
  groups : List (List Key × Row)

namespace GroupTable

def empty : GroupTable := ⟨[]⟩

def size (t : GroupTable) : Nat := t.groups.length

def find? (t : GroupTable) (tuple : List Key) : Option Row :=
  (t.groups.find? fun g => Key.sameTuple g.1 tuple).map (·.2)

/-- Put a group at its place; an equal tuple keeps its own spelling and
takes the new aggregates. -/
def insertSorted (tuple : List Key) (aggregates : Row) :
    List (List Key × Row) → List (List Key × Row)
  | [] => [(tuple, aggregates)]
  | g :: rest =>
    match Key.compareTuples tuple g.1 with
    | .lt => (tuple, aggregates) :: g :: rest
    | .eq => (g.1, aggregates) :: rest
    | .gt => g :: insertSorted tuple aggregates rest

def insert (t : GroupTable) (tuple : List Key) (aggregates : Row) : GroupTable :=
  ⟨insertSorted tuple aggregates t.groups⟩

/-- Key cells followed by aggregates, group by group. -/
def rows (t : GroupTable) : List Row := t.groups.map fun g => g.1.map Key.cell ++ g.2

end GroupTable

end SegmentQuery
