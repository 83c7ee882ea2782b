import SegmentQuery.Aggregate.Accumulator
import SegmentQuery.Progress
/-!
# Group holders

A group holder keeps one slot per group number. It grows by doubling up
to a maximum, never loses a slot, and counts how often it grew. Its slots
lie in one piece of memory: `firstBytes` is how much a new holder asks for,
`grownBytes` how much one that grows, and more than can be allocated ends
the program.
-/


namespace SegmentQuery

/-- The slots of one aggregate, addressed by group number. -/
structure GroupHolder where
  slots : List GroupSlot
  initial : Accumulator
  maxCapacity : Nat
  resizes : Nat

namespace GroupHolder

/-- A holder with room for `capacity` groups, or for as many as the
maximum allows. -/
def new (capacity maxCapacity : Nat) (initial : Accumulator) : GroupHolder where
  slots := List.replicate (min capacity maxCapacity) (GroupSlot.fresh initial)
  initial := initial
  maxCapacity := maxCapacity
  resizes := 0

/-- The bytes of a slot: a word of state, and an accumulator as wide as a
decimal beside the word that tells its kind. -/
def slotBytes : Nat := 32

/-- The bytes of a new holder's slots. -/
def firstBytes (capacity maxCapacity : Nat) : Nat := min capacity maxCapacity * slotBytes

def capacity (h : GroupHolder) : Nat := h.slots.length

/-- The bytes that a holder asks for to grow: for twice the slots that it
has, be they more than the maximum, or for as many as are wanted. -/
def grownBytes (h : GroupHolder) (wanted : Nat) : Nat := max wanted (2 * h.capacity) * slotBytes

/-- The holder with more room: twice as much, or as much as is wanted when
that is more. -/
def grow (h : GroupHolder) (wanted : Nat) : GroupHolder :=
  let grown := max wanted (min (2 * h.capacity) h.maxCapacity)
  { h with
    slots := h.slots ++ List.replicate (grown - h.capacity) (GroupSlot.fresh h.initial)
    resizes := h.resizes + 1 }

/-- Make room for groups `0` to `wanted - 1`. -/
def ensure (h : GroupHolder) (wanted : Nat) : Except QueryError GroupHolder :=
  if wanted ≤ h.capacity then .ok h
  else if h.maxCapacity < wanted then .error (.groupCapacity wanted h.maxCapacity)
  else if Number.maxAllocation < h.grownBytes wanted then
    .error (.allocation .aggregate (h.grownBytes wanted))
  else .ok (h.grow wanted)

def slot (h : GroupHolder) (group : Nat) : Except QueryError GroupSlot :=
  match h.slots[group]? with
  | some s => .ok s
  | none => .error (.groupKeyOutside group h.capacity)

/-- Change one group's slot. -/
def update (h : GroupHolder) (f : GroupSlot → Except QueryError GroupSlot) (group : Nat) :
    Progress QueryError GroupHolder :=
  .ofExcept h (do
    let changed ← f (← h.slot group)
    return { h with slots := h.slots.set group changed })

/-- Work through positions in order: each brings an item and the groups
it belongs to, and the item is folded into each of them. -/
def foldPositions {α : Type} (fold : α → GroupSlot → Except QueryError GroupSlot)
    (h : GroupHolder) (positions : List (List Nat × α)) : Progress QueryError GroupHolder :=
  Progress.foldl (fun h (groups, item) => Progress.foldl (fun h g => h.update (fold item) g) h groups)
    h positions

end GroupHolder

end SegmentQuery
