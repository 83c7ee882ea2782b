import SegmentQuery.Aggregate.Fold
import SegmentQuery.Decimal.Rounding
/-!
# Intermediate and final values

What a function extracts from its holders, how two intermediate values
from independent scans are combined, and how the last one becomes the
result. In a merge a null side is the identity, except for MAX, where it
absorbs.
-/


namespace SegmentQuery

namespace AggregateFunction

/-- The intermediate value of a scan. -/
def extract (f : AggregateFunction) (h : Holder) : Cell :=
  match f with
  | .min _ | .max _ | .sum _ => .double h.value.toDouble
  | .sumPrecision _ _ _ nullHandling =>
    if nullHandling && !h.seenNonNull then .null else .bigDecimal h.value.toDecimal
  | .count _ => .long h.value.toLong

/-- The intermediate value of a group. -/
def extractSlot (f : AggregateFunction) (s : GroupSlot) : Cell :=
  match f with
  | .min _ | .max _ => if s.isNull then .null else .double s.value.toDouble
  | .sum _ => .double s.value.toDouble
  | .sumPrecision _ _ _ nullHandling =>
    if nullHandling && s.state != .valued then .null else .bigDecimal s.value.toDecimal
  | .count _ => .long s.value.toLong

def extractGroup (f : AggregateFunction) (h : GroupHolder) (group : Nat) : Except QueryError Cell :=
  (h.slot group).map f.extractSlot

/-! ## Merging -/

def doubleOperand (kind : AggregateKind) (c : Cell) : Except QueryError Double :=
  match c.toDouble? with
  | some v => .ok v
  | none => .error (.mergeOperand kind c.kind)

/-- A decimal intermediate, or a text that reads as one. -/
def decimalOperand : Cell → Except QueryError Decimal
  | .bigDecimal v => .ok v
  | .string v => Decimal.ofText v
  | c => .error (.mergeOperand .sumPrecision c.kind)

/-- Combine two values that are there; a null side yields the other one
as it stands. -/
def mergePresent (left right : Cell) (combine : Except QueryError Cell) : Except QueryError Cell :=
  if left.isNull then .ok right else if right.isNull then .ok left else combine

/-- Combine two values that are there; a null side absorbs. -/
def mergeAbsorbing (left right : Cell) (combine : Except QueryError Cell) :
    Except QueryError Cell :=
  if left.isNull || right.isNull then .ok .null else combine

/-- Combine two intermediate values. -/
def merge (f : AggregateFunction) (left right : Cell) : Except QueryError Cell :=
  match f with
  | .min _ => mergePresent left right do
      let l ← doubleOperand .min left
      let r ← doubleOperand .min right
      return .double (l.min r)
  | .max _ => mergeAbsorbing left right do
      let l ← doubleOperand .max left
      let r ← doubleOperand .max right
      return .double (l.max r)
  | .sum _ => mergePresent left right do
      let l ← doubleOperand .sum left
      let r ← doubleOperand .sum right
      return .double (l.add r)
  | .sumPrecision .. => mergePresent left right do
      let l ← decimalOperand left
      let r ← decimalOperand right
      match l.add? r with
      | some total => return .bigDecimal total
      | none => throw .decimalSumOverflow
  | .count _ => mergePresent left right <|
      match left.toLong?, right.toLong? with
      | some l, some r => .ok (.long (Counter.addSigned l r))
      | _, _ => .error (.countOperands left.kind right.kind)

/-! ## Results -/

/-- A decimal sum under a precision and a scale. -/
def roundSum (precision : Nat) (scale : Option Nat) (total : Decimal) :
    Except QueryError Scaled :=
  let rounded := total.toPrecision precision
  match scale with
  | none => .ok rounded
  | some places =>
    match rounded.toScale? places with
    | some rounded => .ok rounded
    | none => .error (.unroundableSum places)

/-- The text of a rounded decimal sum. -/
def sumText (rounded : Scaled) : Except QueryError String :=
  match rounded.text? with
  | some text => .ok text
  | none => .error (.unwritableSum rounded.scale)

/-- Turn the last intermediate value into the result. -/
def finalize (f : AggregateFunction) (intermediate : Cell) : Except QueryError Cell :=
  match f with
  | .sumPrecision _ precision scale _ =>
    if intermediate.isNull then .ok .null
    else do
      let total ← decimalOperand intermediate
      return .string (← sumText (← roundSum precision scale total))
  | _ => .ok intermediate

end AggregateFunction

end SegmentQuery
