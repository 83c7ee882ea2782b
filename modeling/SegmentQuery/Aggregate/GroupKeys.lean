import SegmentQuery.Cell.Key
/-!
# Group numbers

Distinct tuples get numbers `0, 1, 2, …` in the order in which they are
first accepted. Past the limit a new tuple gets none, and the generator
notes that one was refused. Numbers have 32 bits: where the limit is higher
and they are used up, a new tuple gets none either, and nothing is noted.
-/


namespace SegmentQuery

/-- The tuples that have a number; the number is the place in the
list. -/
structure GroupKeys where
  tuples : List (List Key)
  limit : Nat
  limitReached : Bool

namespace GroupKeys

def new (limit : Nat) : GroupKeys := ⟨[], limit, false⟩

def count (g : GroupKeys) : Nat := g.tuples.length

/-- The number of a tuple, if it has one. -/
def find? (g : GroupKeys) (tuple : List Key) : Option Nat :=
  g.tuples.findIdx? (Key.sameTuple · tuple)

/-- The number of a tuple, given out now if it is new, the limit allows
and there is one left. -/
def assign (g : GroupKeys) (tuple : List Key) : Option Nat × GroupKeys :=
  match g.find? tuple with
  | some n => (some n, g)
  | none =>
    if g.limit ≤ g.count then (none, { g with limitReached := true })
    else if Number.bound32 ≤ g.count then (none, g)
    else (some g.count, { g with tuples := g.tuples ++ [tuple] })

/-- **What a call for a number does**: it answers with a number that there
is, turns a new tuple away for the limit or for want of numbers, or gives
out the next number. -/
theorem assign_cases (g : GroupKeys) (tuple : List Key) :
    (∃ n, g.find? tuple = some n ∧ g.assign tuple = (some n, g)) ∨
    (g.find? tuple = none ∧ g.limit ≤ g.count ∧
      g.assign tuple = (none, { g with limitReached := true })) ∨
    (g.find? tuple = none ∧ g.count < g.limit ∧ Number.bound32 ≤ g.count ∧
      g.assign tuple = (none, g)) ∨
    (g.find? tuple = none ∧ g.count < g.limit ∧ g.count < Number.bound32 ∧
      g.assign tuple = (some g.count, { g with tuples := g.tuples ++ [tuple] })) := by
  unfold assign
  cases g.find? tuple with
  | some n => exact .inl ⟨n, rfl, rfl⟩
  | none =>
    refine .inr ?_
    by_cases hlimit : g.limit ≤ g.count
    · exact .inl ⟨rfl, hlimit, if_pos hlimit⟩
    · by_cases hbound : Number.bound32 ≤ g.count
      · exact .inr (.inl ⟨rfl, Nat.lt_of_not_le hlimit, hbound,
          (if_neg hlimit).trans (if_pos hbound)⟩)
      · exact .inr (.inr ⟨rfl, Nat.lt_of_not_le hlimit, Nat.lt_of_not_le hbound,
          (if_neg hlimit).trans (if_neg hbound)⟩)

/-- Assign numbers to tuples in order. -/
def assignAll (g : GroupKeys) : List (List Key) → List (Option Nat) × GroupKeys
  | [] => ([], g)
  | tuple :: rest =>
    let (n, g) := g.assign tuple
    let (ns, g) := g.assignAll rest
    (n :: ns, g)

end GroupKeys

/-- The group numbers of a block's documents: one each, or any number
each when a multi-value column is grouped by. -/
inductive BlockGroups
  | single (groups : List Nat)
  | multi (groups : List (List Nat))

namespace BlockGroups

/-- The number of documents. -/
def length : BlockGroups → Nat
  | .single groups => groups.length
  | .multi groups => groups.length

def isEmpty (g : BlockGroups) : Bool := g.length == 0

/-- The groups of each document. -/
def toLists : BlockGroups → List (List Nat)
  | .single groups => groups.map ([·])
  | .multi groups => groups

end BlockGroups

end SegmentQuery
