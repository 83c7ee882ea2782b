import SegmentQuery.Counter
import SegmentQuery.Error.Basic
import SegmentQuery.Text.Blank
/-!
# Query options

The knobs that every operator of one query shares, and the string map
they may be read from. A map is read key by key in a fixed order, so of
two bad values the first in that order is reported; unknown keys are
ignored.
-/


namespace SegmentQuery

/-- `maxInitialCapacity` bounds the room that operators reserve before they
know how many rows or groups there are. It is no part of what they answer.
Where it lets through more than can be allocated the program ends; that is
modelled for a grouping's holders (`GroupBy.attempt`) and left out for the
rows of the other operators. -/
structure Options where
  nullHandling : Bool := false
  limit : Nat := 10
  offset : Nat := 0
  blockSize : Nat := 10000
  maxInitialCapacity : Nat := 10000
  numGroupsLimit : Nat := 100000
  deriving DecidableEq, Repr

namespace Options

/-- The rows that one partial result must keep: `offset + limit`. -/
def rowsToKeep (o : Options) : Nat := Counter.add o.offset o.limit

/-- The capacity to start with for `rows` rows. Lists here have room for
any. -/
def initialCapacity (o : Options) (rows : Nat) : Nat := min rows o.maxInitialCapacity

/-! ## String maps -/

/-- An ASCII letter in lower case. -/
def lowerAscii (c : Char) : Char :=
  if 'A' ≤ c ∧ c ≤ 'Z' then Char.ofNat (c.toNat + 32) else c

/-- The form in which a value is read: without blanks around it and in
lower case. -/
def canonicalValue (raw : String) : List Char :=
  (Text.trimChars raw.toList).map lowerAscii

def readFlag (key raw : String) : Except QueryError Bool :=
  let value := canonicalValue raw
  if value = "true".toList then .ok true
  else if value = "false".toList then .ok false
  else .error (.invalidOption key raw)

def readCount (key raw : String) : Except QueryError Nat :=
  match Text.natural? Number.bound64 (canonicalValue raw) with
  | some n => .ok n
  | none => .error (.invalidOption key raw)

/-- Read the value of a key with `read`, or keep `current` when the map
lacks the key. -/
def readKey {α : Type} (map : List (String × String)) (key : String) (current : α)
    (read : String → String → Except QueryError α) : Except QueryError α :=
  match map.lookup key with
  | some raw => read key raw
  | none => .ok current

/-- Read a string map over the defaults. -/
def ofMap (map : List (String × String)) : Except QueryError Options := do
  let defaults : Options := {}
  let nullHandling ← readKey map "enableNullHandling" defaults.nullHandling readFlag
  let limit ← readKey map "limit" defaults.limit readCount
  let offset ← readKey map "offset" defaults.offset readCount
  let numGroupsLimit ← readKey map "numGroupsLimit" defaults.numGroupsLimit readCount
  let blockSize ← readKey map "blockSize" defaults.blockSize readCount
  if blockSize = 0 then throw .zeroBlockSize
  return { defaults with nullHandling, limit, offset, numGroupsLimit, blockSize }

end Options

end SegmentQuery
