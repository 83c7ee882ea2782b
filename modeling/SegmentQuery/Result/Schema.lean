import SegmentQuery.ColumnType.Basic
/-!
# Result schemas

The columns of a result, in order. Names may repeat; a name then stands
for the first column that bears it.
-/


namespace SegmentQuery

/-- A column of a result. -/
structure ResultColumn where
  name : String
  type : ColumnType
  role : FieldKind
  deriving DecidableEq, Repr

/-- Result columns in order. -/
structure Schema where
  columns : List ResultColumn
  deriving DecidableEq, Repr

namespace Schema

def empty : Schema := ⟨[]⟩

def width (s : Schema) : Nat := s.columns.length

def isEmpty (s : Schema) : Bool := s.columns.isEmpty

def names (s : Schema) : List String := s.columns.map ResultColumn.name

/-- The first column of a name. -/
def indexOf? (s : Schema) (name : String) : Option Nat := s.columns.findIdx? (·.name == name)

end Schema

end SegmentQuery
