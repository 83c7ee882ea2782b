import SegmentQuery.Aggregate.Function
import SegmentQuery.Aggregate.Groups
import SegmentQuery.Column.Numeric
import SegmentQuery.Counter
import SegmentQuery.Decimal.Bytes
/-!
# Folding blocks

How each function takes in the first `length` positions of a block, for
a whole scan (`aggregate`) and group by group (`aggregateGroups`).

Over a whole scan every function passes nulls by. In groups they differ:
a null settles MIN's group for good; MAX's only when the position's
stored value exceeds the maximum so far; the others pass nulls by. A
position that COUNT or a decimal sum passes by is not looked up, so the
number of its group may be one that has no slot.

A decimal sum reads all of a block's decimals before it adds the first,
and when an addition overflows it keeps the sum from before the block.
-/


namespace SegmentQuery

/-! ## Values of a block -/

/-- The values among the first `length` positions that are not null. -/
def Column.present {α : Type} (nulls : Option DocSet) (length : Nat) (vs : List α) : List α :=
  ((vs.take length).zipIdx.filter fun p => !recordsNull nulls p.2).map (·.1)

/-- Keep the first of equal values, and let a value that compares with
nothing replace what it follows. -/
def Numeric.best {α : Type} (better : α → α → Bool) : List α → Option α
  | [] => none
  | v :: rest => some (rest.foldl (fun current v => if better current v then current else v) v)

namespace NumericValues

section

variable {α : Type} [Numeric α]

def leastOf (vs : List α) : Double :=
  ((Numeric.best Numeric.le vs).map Numeric.toDouble).getD (Numeric.emptyMin α)

def greatestOf (vs : List α) : Double :=
  ((Numeric.best (fun a b => Numeric.le b a) vs).map Numeric.toDouble).getD (Numeric.emptyMax α)

def sumOf (vs : List α) : Double := vs.foldl (fun acc v => acc.add (Numeric.toDouble v)) Double.zero

end

/-- The least value that is not null, as a double. -/
def least (length : Nat) (nulls : Option DocSet) : NumericValues → Double
  | .int vs => leastOf (Column.present nulls length vs)
  | .long vs => leastOf (Column.present nulls length vs)
  | .float vs => leastOf (Column.present nulls length vs)
  | .double vs => leastOf (Column.present nulls length vs)
  | .bigDecimal vs => leastOf (Column.present nulls length vs)

/-- The greatest value that is not null, as a double. -/
def greatest (length : Nat) (nulls : Option DocSet) : NumericValues → Double
  | .int vs => greatestOf (Column.present nulls length vs)
  | .long vs => greatestOf (Column.present nulls length vs)
  | .float vs => greatestOf (Column.present nulls length vs)
  | .double vs => greatestOf (Column.present nulls length vs)
  | .bigDecimal vs => greatestOf (Column.present nulls length vs)

/-- Add decimals from the left. -/
def addDecimals (sum : Decimal) : List Decimal → Option Decimal
  | [] => some sum
  | v :: rest => (sum.add? v).bind fun sum => addDecimals sum rest

/-- The sum of the values that are not null. Decimals are summed exactly
and converted once. -/
def sum (length : Nat) (nulls : Option DocSet) : NumericValues → Except QueryError Double
  | .int vs => .ok (sumOf (Column.present nulls length vs))
  | .long vs => .ok (sumOf (Column.present nulls length vs))
  | .float vs => .ok (sumOf (Column.present nulls length vs))
  | .double vs => .ok (sumOf (Column.present nulls length vs))
  | .bigDecimal vs =>
    match addDecimals Decimal.zero (Column.present nulls length vs) with
    | some total => .ok total.toDouble
    | none => .error .decimalSumOverflow

end NumericValues

namespace Column

/-- How many of the first `length` positions the column has. -/
def reach (c : Column) (length : Nat) : Nat := min length c.length

/-- The number of positions among the first `length` that are not
null. -/
def countPresent (c : Column) (length : Nat) : Nat :=
  let scanned := c.reach length
  let nulls := ((c.nulls.map DocSet.toList).getD []).takeWhile (· < scanned)
  scanned - nulls.length

/-- The decimal at one position; none for a floating-point number that
has none, when null handling passes it by. -/
def decimalAt (c : Column) (nullHandling : Bool) (position : Nat) :
    Except QueryError (Option Decimal) :=
  match c.values with
  | .single .int vs => .ok (vs[position]?.map Decimal.ofInt32)
  | .single .long vs => .ok (vs[position]?.map Decimal.ofInt64)
  | .single .float vs =>
    match vs[position]? with
    | none => .ok none
    | some v =>
      if nullHandling && !v.isFinite then .ok none else (Decimal.ofSingle v).map some
  | .single .double vs =>
    match vs[position]? with
    | none => .ok none
    | some v =>
      if nullHandling && !v.isFinite then .ok none else (Decimal.ofDouble v).map some
  | .single .bigDecimal vs => .ok vs[position]?
  | .single .string vs =>
    match vs[position]? with
    | none => .ok none
    | some v => (Decimal.ofText v).map some
  | .single .bytes vs =>
    match vs[position]? with
    | none => .ok none
    | some v => (Decimal.ofBytes v).map some
  | .multi type _ => .error (.multiValueSum type)

/-- The decimals of the first `length` positions; none where a position
adds nothing. -/
def decimals (c : Column) (nullHandling : Bool) (length : Nat) :
    Except QueryError (List (Option Decimal)) :=
  (List.range (c.reach length)).mapM fun position =>
    if nullHandling && c.isNull position then .ok none else c.decimalAt nullHandling position

/-- Every value as a double, with whether its position is null. -/
def markedDoubles (c : Column) : Except QueryError (List (Double × Bool)) :=
  c.doubles.map fun vs => vs.zipIdx.map fun (v, position) => (v, c.isNull position)

end Column

/-! ## One group -/

namespace GroupSlot

def foldMin (item : Double × Bool) (s : GroupSlot) : GroupSlot :=
  if item.2 then s.markNull
  else if item.1.lt s.value.toDouble then { s with value := .double item.1 }.observe
  else s.observe

def foldMax (item : Double × Bool) (s : GroupSlot) : GroupSlot :=
  if s.isNull || item.1.le s.value.toDouble then s
  else if item.2 then s.markNull
  else { s with value := .double item.1 }.observe

def foldSum (item : Double × Bool) (s : GroupSlot) : GroupSlot :=
  if item.2 then s else { s with value := .double (s.value.toDouble.add item.1) }.observe

def foldCount (s : GroupSlot) : GroupSlot :=
  { s with value := .long (Counter.addSigned s.value.toLong 1) }.observe

def foldDecimal (item : Decimal) (s : GroupSlot) : Except QueryError GroupSlot :=
  match s.value.toDecimal.add? item with
  | some sum => .ok { s with value := .decimal sum }.observe
  | none => .error .decimalSumOverflow

end GroupSlot

/-- Add decimals to a holder's sum. The sum is written once, at the end;
the note that a value arrived is written with each addition. -/
def Holder.addDecimals (h : Holder) (sum : Decimal) : List Decimal → Progress QueryError Holder
  | [] => .done { h with value := .decimal sum }
  | d :: rest =>
    match sum.add? d with
    | none => .stopped h .decimalSumOverflow
    | some sum => addDecimals { h with seenNonNull := true } sum rest

/-! ## Functions -/

namespace AggregateFunction

/-- The value before anything is folded in. -/
def initial : AggregateFunction → Accumulator
  | .min _ => .double Double.infinity
  | .max _ => .double Double.negInfinity
  | .sum _ => .double Double.zero
  | .sumPrecision .. => .decimal Decimal.zero
  | .count _ => .long 0

def holder (f : AggregateFunction) : Holder := { value := f.initial }

def groupHolder (f : AggregateFunction) (capacity maxCapacity : Nat) : GroupHolder :=
  .new capacity maxCapacity f.initial

def requireInput (f : AggregateFunction) : Option Column → Except QueryError Column
  | some c => .ok c
  | none => .error (.missingInput f.kind)

/-- Fold the first `length` positions of a block into a holder. -/
def aggregate (f : AggregateFunction) (length : Nat) (input : Option Column) (h : Holder) :
    Progress QueryError Holder :=
  match f with
  | .min _ => .ofExcept h (do
      let c ← f.requireInput input
      let least := (← c.numeric).least length c.nulls
      return { h with value := .double (least.min h.value.toDouble) })
  | .max _ => .ofExcept h (do
      let c ← f.requireInput input
      let greatest := (← c.numeric).greatest length c.nulls
      return { h with value := .double (greatest.max h.value.toDouble) })
  | .sum _ => .ofExcept h (do
      let c ← f.requireInput input
      let sum ← (← c.numeric).sum length c.nulls
      return { h with value := .double (h.value.toDouble.add sum) })
  | .sumPrecision _ _ _ nullHandling =>
    match f.requireInput input with
    | .error e => .stopped h e
    | .ok c =>
      match c.decimals nullHandling length with
      | .error e => .stopped h e
      | .ok ds => h.addDecimals h.value.toDecimal (ds.filterMap id)
  | .count _ =>
    let counted := match input with
      | some c => c.countPresent length
      | none => length
    .done { h with value := .long (Counter.addSigned h.value.toLong (Counter.signed counted)) }

/-- Fold the first `length` positions of a block into the groups that
each of them belongs to. -/
def aggregateGroups (f : AggregateFunction) (length : Nat) (groups : List (List Nat))
    (input : Option Column) (h : GroupHolder) : Progress QueryError GroupHolder :=
  let foldDoubles (fold : Double × Bool → GroupSlot → GroupSlot) : Progress QueryError GroupHolder :=
    match (do (← f.requireInput input).markedDoubles) with
    | .error e => .stopped h e
    | .ok items =>
      h.foldPositions (fun item s => .ok (fold item s)) ((groups.zip items).take length)
  match f with
  | .min _ => foldDoubles GroupSlot.foldMin
  | .max _ => foldDoubles GroupSlot.foldMax
  | .sum _ => foldDoubles GroupSlot.foldSum
  | .sumPrecision _ _ _ nullHandling =>
    match (do (← f.requireInput input).decimals nullHandling length) with
    | .error e => .stopped h e
    | .ok ds =>
      h.foldPositions GroupSlot.foldDecimal
        ((groups.zip ds).filterMap fun (gs, d) => d.map fun d => (gs, d))
  | .count _ =>
    let counted := match input with
      | some c => Column.present c.nulls (c.reach length) groups
      | none => groups.take length
    h.foldPositions (fun _ s => .ok s.foldCount) (counted.map fun gs => (gs, ()))

end AggregateFunction

end SegmentQuery
