import SegmentQuery.Error.Basic
import SegmentQuery.Text.Blank
/-!
# Aggregate functions

The five aggregates with their arguments. A function is stateless; what
it accumulates lives in holders. `ofArguments` builds one from a name and
its arguments, `ofCall` from call syntax such as
`sumprecision(price, 10, 2)`.
-/


namespace SegmentQuery

/-- An aggregate function. -/
inductive AggregateFunction
  | min (column : String)
  | max (column : String)
  | sum (column : String)
  /-- An exact decimal sum. Precision 0 means unlimited. -/
  | sumPrecision (column : String) (precision : Nat) (scale : Option Nat) (nullHandling : Bool)
  /-- Counts a column's values, or documents when there is no column. -/
  | count (column : Option String)
  deriving DecidableEq, Repr

namespace AggregateKind

/-- The functions in registry order. -/
def all : List AggregateKind := [.min, .max, .sum, .sumPrecision, .count]

def sameIgnoringCase (a b : String) : Bool :=
  let lower (c : Char) : Char := if 'A' ≤ c ∧ c ≤ 'Z' then Char.ofNat (c.toNat + 32) else c
  a.toList.map lower == b.toList.map lower

/-- Find a function by its name, whatever the case of its letters. -/
def ofName? (name : String) : Option AggregateKind := all.find? (sameIgnoringCase ·.name name)

end AggregateKind

namespace AggregateFunction

def kind : AggregateFunction → AggregateKind
  | .min _ => .min
  | .max _ => .max
  | .sum _ => .sum
  | .sumPrecision .. => .sumPrecision
  | .count _ => .count

/-- The column a function reads, none for a count of documents. -/
def column? : AggregateFunction → Option String
  | .min c | .max c | .sum c => some c
  | .sumPrecision c _ _ _ => some c
  | .count c => c

/-- The argument that stands for documents instead of a column. -/
def star : String := "*"

/-- The name of the result column. -/
def resultColumn (f : AggregateFunction) : String :=
  f.kind.name ++ "(" ++ f.column?.getD star ++ ")"

/-- The column type of the intermediate values that are merged. -/
def intermediateType : AggregateFunction → ColumnType
  | .sumPrecision .. => .object
  | .count _ => .long
  | _ => .double

/-- The column type of the final value. -/
def finalType : AggregateFunction → ColumnType
  | .sumPrecision .. => .string
  | .count _ => .long
  | _ => .double

/-! ## Arguments -/

def single (kind : AggregateKind) (make : String → AggregateFunction) :
    List String → Except QueryError AggregateFunction
  | [column] => .ok (make column)
  | arguments => .error (.argumentCount kind arguments.length)

/-- Read a precision or a scale. -/
def literal (role text : String) : Except QueryError Nat :=
  match Text.natural? Number.bound32 (Text.trimChars text.toList) with
  | some n => .ok n
  | none => .error (.sumPrecisionLiteral role text)

/-- Build a function from its name and arguments. -/
def ofArguments (name : String) (arguments : List String) (nullHandling : Bool) :
    Except QueryError AggregateFunction :=
  match AggregateKind.ofName? name with
  | none => .error (.unknownFunction name)
  | some .min => single .min .min arguments
  | some .max => single .max .max arguments
  | some .sum => single .sum .sum arguments
  | some .count =>
    single .count (fun c => .count (if c = star then none else some c)) arguments
  | some .sumPrecision =>
    match arguments with
    | [column] => .ok (.sumPrecision column 0 none nullHandling)
    | [column, precision] => do
      return .sumPrecision column (← literal "precision" precision) none nullHandling
    | [column, precision, scale] => do
      let precision ← literal "precision" precision
      let scale ← literal "scale" scale
      return .sumPrecision column precision (some scale) nullHandling
    | _ => .error (.sumPrecisionArguments arguments.length)

/-! ## Call syntax -/

/-- Split at every comma. -/
def splitCommas : List Char → List (List Char)
  | [] => [[]]
  | c :: rest =>
    if c = ',' then [] :: splitCommas rest
    else match splitCommas rest with
      | piece :: pieces => (c :: piece) :: pieces
      | [] => [[c]]

/-- The arguments between the parentheses: trimmed, blank ones left
out. -/
def callArguments (inner : List Char) : List String :=
  (((splitCommas inner).map Text.trimChars).filter (!·.isEmpty)).map String.ofList

/-- Build a function from call syntax: a name, an opening parenthesis,
arguments, and a closing parenthesis at the end. -/
def ofCall (call : String) (nullHandling : Bool) : Except QueryError AggregateFunction :=
  let trimmed := Text.trimChars call.toList
  match trimmed.dropWhile (· ≠ '(') with
  | [] => .error (.malformedCall call)
  | _ :: inner =>
    if inner.getLast? = some ')' then
      let name := Text.trimChars (trimmed.takeWhile (· ≠ '('))
      ofArguments (String.ofList name) (callArguments inner.dropLast) nullHandling
    else .error (.malformedCall call)

end AggregateFunction

end SegmentQuery
