import SegmentQuery.ColumnType.Basic
import SegmentQuery.Decimal.Text
/-!
# Errors

Every way a query can fail is one constructor of `QueryError`, named for
its cause. Class, origin and wording are functions of the cause. At the
merge boundary an error becomes a `ProcessingException`: a numeric code
and a text that names origin and class.
-/


namespace SegmentQuery

/-- What kind of failure an error is. -/
inductive ErrorClass
  | unsupported
  | invalidArgument
  | invariantViolation
  | internal
  | corruption
  deriving DecidableEq, Repr

/-- The part of the engine an error comes from. -/
inductive ErrorOrigin
  | config
  | fetch
  | aggregate
  | distinct
  | selection
  | merge
  | render
  | serialize
  deriving DecidableEq, Repr

def ErrorClass.all : List ErrorClass :=
  [.unsupported, .invalidArgument, .invariantViolation, .internal, .corruption]

def ErrorOrigin.all : List ErrorOrigin :=
  [.config, .fetch, .aggregate, .distinct, .selection, .merge, .render, .serialize]

def ErrorClass.name : ErrorClass → String
  | .unsupported => "unsupported"
  | .invalidArgument => "invalid_argument"
  | .invariantViolation => "invariant_violation"
  | .internal => "internal"
  | .corruption => "corruption"

def ErrorOrigin.name : ErrorOrigin → String
  | .config => "config"
  | .fetch => "fetch"
  | .aggregate => "aggregate"
  | .distinct => "distinct"
  | .selection => "selection"
  | .merge => "merge"
  | .render => "render"
  | .serialize => "serialize"

/-! ## Parts of causes -/

/-- A use that some stored types are not fit for. -/
inductive TypeUse
  | numericAggregation
  | rowFetch
  | resultColumn
  | distinctValues
  deriving DecidableEq, Repr

def TypeUse.name : TypeUse → String
  | .numericAggregation => "numeric aggregation"
  | .rowFetch => "row fetch"
  | .resultColumn => "result column"
  | .distinctValues => "distinct"

def TypeUse.origin : TypeUse → ErrorOrigin
  | .numericAggregation => .aggregate
  | .rowFetch | .resultColumn => .fetch
  | .distinctValues => .distinct

/-- The kinds of aggregate functions. -/
inductive AggregateKind
  | min
  | max
  | sum
  | sumPrecision
  | count
  deriving DecidableEq, Repr

def AggregateKind.name : AggregateKind → String
  | .min => "min"
  | .max => "max"
  | .sum => "sum"
  | .sumPrecision => "sumprecision"
  | .count => "count"

/-- The kinds of rows that a partial result may hold. -/
inductive RowsKind
  | empty
  | selection
  | orderedSelection
  | aggregation
  | groupBy
  | distinct
  deriving DecidableEq, Repr

def RowsKind.name : RowsKind → String
  | .empty => "empty"
  | .selection => "selection"
  | .orderedSelection => "ordered_selection"
  | .aggregation => "aggregation"
  | .groupBy => "group_by"
  | .distinct => "distinct"

/-- Why a payload cannot be written or read. -/
inductive PayloadError
  | encode (detail : String)
  | decode (detail : String)
  | tooLarge (length limit : Nat)
  deriving DecidableEq, Repr

namespace PayloadError

def message : PayloadError → String
  | .encode detail => s!"encode failed: {detail}"
  | .decode detail => s!"decode failed: {detail}"
  | .tooLarge length limit => s!"payload of {length} bytes exceeds the {limit} byte limit"

/-- Whether the payload is at fault, and not the value written. -/
def isCorruption : PayloadError → Bool
  | .encode _ => false
  | _ => true

end PayloadError

/-! ## Causes -/

inductive QueryError
  /-- A failure reported from outside, by a storage or by a partial result. -/
  | reported (errorClass : ErrorClass) (origin : ErrorOrigin) (message : String)
  | unsupportedType (use : TypeUse) (type : StoredType) (singleValue : Bool)
  | payload (cause : PayloadError)
  | invalidOption (key raw : String)
  | zeroBlockSize
  | columnOutsideBlock (width index : Nat)
  | documentOutsideBlock (document : Nat)
  | rowBufferTooNarrow (width start stop : Nat)
  | columnLength (column : String) (values : Nat) (segment : String) (documents : Nat)
  | duplicateColumn (column segment : String)
  | unknownColumn (column segment : String)
  | documentOutsideSegment (document : Nat) (segment : String) (documents : Nat)
  | nonFiniteDecimal (value : Double)
  | badDecimal (text : String) (cause : NumeralError)
  | decimalBytesLength (length : Nat)
  | negativeDecimalScale (scale : Int)
  | decimalBytesRange (cause : NumeralError)
  | unknownFunction (name : String)
  | malformedCall (call : String)
  | argumentCount (kind : AggregateKind) (given : Nat)
  | sumPrecisionArguments (given : Nat)
  | sumPrecisionLiteral (role literal : String)
  | missingInput (kind : AggregateKind)
  | decimalSumOverflow
  | multiValueSum (type : StoredType)
  /-- A decimal sum that was asked for with more fractional digits than a text has. -/
  | unwritableSum (places : Nat)
  /-- A decimal sum padded past what a stored decimal holds, that was asked for with fewer
  fractional digits, and still with more than a stored decimal has. -/
  | unroundableSum (places : Nat)
  /-- A block without a column that its grouping needs. -/
  | groupingColumn (width index : Nat)
  /-- Room for more bytes than one allocation may have. -/
  | allocation (origin : ErrorOrigin) (bytes : Nat)
  | groupCapacity (wanted maximum : Nat)
  | groupKeyOutside (key capacity : Nat)
  | multiValueGroupColumn (column : String)
  | mergeOperand (kind : AggregateKind) (cell : CellKind)
  | countOperands (left right : CellKind)
  | aggregateWidths (left right functions : Nat)
  | mergeRows (source target : RowsKind)
  | rowWidth (row cells columns : Nat)
  | tooManyRows
  | multiValueOrder (column : Nat) (cell : CellKind)
  | unexpectedDocument (document : Nat)
  | secondPassCount (fetched expected : Nat)
  | distinctOrder
  | distinctWithoutColumn
  | distinctCell (type : StoredType) (cell : CellKind)
  | mergeDistinct (source target : StoredType)
  | distinctTableWithoutColumn
  | distinctColumnType (type : ColumnType)
  | groupOrder (expression : String)
  | cannotConvert (cell : CellKind) (type : ColumnType)
  | missingResultColumn (column : String)
  deriving DecidableEq

namespace QueryError

def errorClass : QueryError → ErrorClass
  | .reported c _ _ => c
  | .unsupportedType .. | .multiValueGroupColumn _ | .cannotConvert .. => .unsupported
  | .payload cause => if cause.isCorruption then .corruption else .internal
  | .invalidOption .. | .zeroBlockSize | .columnLength .. | .duplicateColumn .. | .unknownColumn ..
  | .nonFiniteDecimal _ | .badDecimal .. | .decimalBytesLength _ | .negativeDecimalScale _
  | .decimalBytesRange _ | .unknownFunction _ | .malformedCall _ | .argumentCount ..
  | .sumPrecisionArguments _ | .sumPrecisionLiteral .. | .decimalSumOverflow | .multiValueSum _
  | .distinctOrder | .distinctWithoutColumn | .groupOrder _ => .invalidArgument
  | .columnOutsideBlock .. | .documentOutsideBlock _ | .rowBufferTooNarrow ..
  | .documentOutsideSegment .. | .missingInput _ | .groupCapacity .. | .groupKeyOutside ..
  | .mergeOperand .. | .countOperands .. | .aggregateWidths .. | .mergeRows .. | .rowWidth ..
  | .tooManyRows | .multiValueOrder .. | .unexpectedDocument _ | .secondPassCount ..
  | .distinctCell .. | .mergeDistinct .. | .distinctTableWithoutColumn | .distinctColumnType _
  | .missingResultColumn _ => .invariantViolation
  | .unwritableSum _ | .unroundableSum _ | .groupingColumn .. | .allocation .. => .internal

def origin : QueryError → ErrorOrigin
  | .reported _ o _ | .allocation o _ => o
  | .unsupportedType use _ _ => use.origin
  | .payload _ => .serialize
  | .invalidOption .. | .zeroBlockSize => .config
  | .columnOutsideBlock .. | .documentOutsideBlock _ | .rowBufferTooNarrow .. | .columnLength ..
  | .duplicateColumn .. | .unknownColumn .. | .documentOutsideSegment .. => .fetch
  | .nonFiniteDecimal _ | .badDecimal .. | .decimalBytesLength _ | .negativeDecimalScale _
  | .decimalBytesRange _ | .unknownFunction _ | .malformedCall _ | .argumentCount ..
  | .sumPrecisionArguments _ | .sumPrecisionLiteral .. | .missingInput _ | .decimalSumOverflow
  | .multiValueSum _ | .unwritableSum _ | .unroundableSum _ | .groupingColumn ..
  | .groupCapacity .. | .groupKeyOutside .. | .multiValueGroupColumn _ => .aggregate
  | .mergeOperand .. | .countOperands .. | .aggregateWidths .. | .mergeRows .. | .rowWidth ..
  | .tooManyRows | .mergeDistinct .. | .distinctTableWithoutColumn | .distinctColumnType _
  | .groupOrder _ => .merge
  | .multiValueOrder .. | .unexpectedDocument _ | .secondPassCount .. => .selection
  | .distinctOrder | .distinctWithoutColumn | .distinctCell .. => .distinct
  | .cannotConvert .. | .missingResultColumn _ => .render

def valuedness (singleValue : Bool) : String :=
  if singleValue then "single-value" else "multi-value"

def message : QueryError → String
  | .reported _ _ text => text
  | .unsupportedType use type singleValue =>
    "unsupported " ++ valuedness singleValue ++ " stored type " ++ type.name ++ " for " ++ use.name
  | .payload cause => cause.message
  | .invalidOption key raw => s!"invalid value '{raw}' for query option {key}"
  | .zeroBlockSize => "blockSize must be positive"
  | .columnOutsideBlock width index => s!"block has {width} columns, requested column {index}"
  | .documentOutsideBlock document => s!"document {document} is outside the current block"
  | .rowBufferTooNarrow width start stop =>
    s!"row buffer of width {width} cannot hold columns {start}..{stop}"
  | .columnLength column values segment documents =>
    s!"column '{column}' has {values} values, segment '{segment}' has {documents} documents"
  | .duplicateColumn column segment => s!"duplicate column '{column}' in segment '{segment}'"
  | .unknownColumn column segment => s!"unknown column '{column}' in segment '{segment}'"
  | .documentOutsideSegment document segment documents =>
    s!"document {document} requested from segment '{segment}' with {documents} documents"
  | .nonFiniteDecimal value => "cannot convert non-finite value " ++ value.text ++ " to decimal"
  | .badDecimal text cause => s!"cannot parse '{text}' as decimal: " ++ cause.message
  | .decimalBytesLength length => s!"invalid serialized decimal length {length}"
  | .negativeDecimalScale scale => s!"negative decimal scale {scale} is not supported"
  | .decimalBytesRange cause => "serialized decimal out of range: " ++ cause.message
  | .unknownFunction name => s!"unknown aggregation function '{name}'"
  | .malformedCall call => s!"malformed aggregation call '{call}'"
  | .argumentCount kind given => kind.name ++ s!" expects exactly 1 argument, got {given}"
  | .sumPrecisionArguments given => s!"sumprecision expects 1 to 3 arguments, got {given}"
  | .sumPrecisionLiteral role literal =>
    s!"sumprecision {role} must be a non-negative integer, got '{literal}'"
  | .missingInput kind => kind.name ++ " requires an input column"
  | .decimalSumOverflow => "decimal sum overflow"
  | .multiValueSum type => "sumprecision does not accept multi-value " ++ type.name ++ " input"
  | .unwritableSum places => s!"decimal sum with {places} fractional digits has no text"
  | .unroundableSum places => s!"decimal sum cannot be rounded to {places} fractional digits"
  | .groupingColumn width index => s!"block has {width} columns, grouping needs column {index}"
  | .allocation _ bytes => s!"cannot allocate {bytes} bytes"
  | .groupCapacity wanted maximum =>
    s!"group capacity {wanted} exceeds holder maximum {maximum}"
  | .groupKeyOutside key capacity => s!"group key {key} is outside holder capacity {capacity}"
  | .multiValueGroupColumn column =>
    s!"multi-value group-by column '{column}' must be the only group-by column"
  | .mergeOperand kind cell =>
    kind.name ++ " cannot merge a " ++ cell.name ++ " intermediate"
  | .countOperands left right => "count cannot merge " ++ left.name ++ " with " ++ right.name
  | .aggregateWidths left right functions =>
    s!"aggregate widths {left} and {right} do not match {functions} functions"
  | .mergeRows source target =>
    "cannot merge " ++ source.name ++ " rows into " ++ target.name ++ " rows"
  | .rowWidth row cells columns => s!"row {row} has {cells} cells, schema has {columns}"
  | .tooManyRows => "data table row count overflow"
  | .multiValueOrder column cell =>
    s!"order-by column {column} holds a multi-value " ++ cell.name ++ " cell"
  | .unexpectedDocument document => s!"second pass returned unexpected document {document}"
  | .secondPassCount fetched expected => s!"second pass fetched {fetched} of {expected} documents"
  | .distinctOrder => "distinct ORDER BY must name the distinct column"
  | .distinctWithoutColumn => "distinct query needs a column"
  | .distinctCell type cell =>
    type.name ++ " distinct executor cannot accept a " ++ cell.name ++ " value"
  | .mergeDistinct source target =>
    "cannot merge " ++ source.name ++ " distinct values into " ++ target.name ++ " executor"
  | .distinctTableWithoutColumn => "distinct table has no column"
  | .distinctColumnType type => "distinct column type " ++ type.name ++ " has no stored type"
  | .groupOrder expression => s!"group-by ORDER BY '{expression}' is not a result column"
  | .cannotConvert cell type =>
    "cannot convert " ++ cell.name ++ " cell to column type " ++ type.name
  | .missingResultColumn column => s!"result column '{column}' is missing from the data schema"

/-- Whether a failure ends the whole request. Any other one is answered,
or recorded as an exception on the answer. -/
def isFatal : QueryError → Bool
  | .unwritableSum _ | .unroundableSum _ | .groupingColumn .. | .allocation .. => true
  | _ => false

/-- The text of an error beyond the engine: origin, class and message. -/
def report (e : QueryError) : String :=
  e.origin.name ++ ":" ++ e.errorClass.name ++ ": " ++ e.message

end QueryError

end SegmentQuery
