/-!
# Sort directions

One direction type serves every ORDER BY. A direction only turns the
comparison of two values that are there; where nulls go is not its
business.
-/


namespace SegmentQuery

inductive Direction
  | asc
  | desc
  deriving DecidableEq, Repr, Inhabited

namespace Direction

/-- Turn a natural-order comparison so that `lt` means "sorts first". -/
def apply : Direction → Ordering → Ordering
  | .asc, o => o
  | .desc, o => o.swap

def isAsc : Direction → Bool
  | .asc => true
  | .desc => false

end Direction

end SegmentQuery
