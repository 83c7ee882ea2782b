import SegmentQuery.Aggregate.GroupKeys
import SegmentQuery.Block.RowView
import SegmentQuery.Operator.Aggregation
/-!
# Grouped aggregation over one segment

Documents are grouped by the tuple of their cells in the group-by
columns. One multi-value column may be grouped by alone: a document then
belongs to the group of each element of its array. Group numbers are
given out until the limit; a document whose group got none is left out,
or, for a multi-value column, left out of that group.

`run` takes the room that holders begin with to be there. `attempt` asks
for it first, and where it is more than can be allocated the program ends.
-/


namespace SegmentQuery

namespace GroupBy

/-- The type of a group-by column's keys and whether it is
multi-value. -/
def keyColumn (segment : Segment) (alone : Bool) (column : String) :
    Except QueryError (ResultColumn × Bool) := do
  let metadata ← segment.metadata column
  if !metadata.singleValue && !alone then throw (.multiValueGroupColumn column)
  return (⟨column, .ofStored metadata.type, metadata.role⟩, !metadata.singleValue)

/-- The schema, and whether the group-by column is multi-value. -/
def schema (segment : Segment) (groupBy : List String) (functions : List AggregateFunction) :
    Except QueryError (Schema × Bool) := do
  let keys ← groupBy.mapM (keyColumn segment (groupBy.length ≤ 1))
  return (⟨keys.map (·.1) ++ Aggregation.intermediateColumns functions⟩, keys.any (·.2))

/-! ## One block -/

/-- The groups and holders of a scan in progress. -/
structure State where
  keys : GroupKeys
  holders : List GroupHolder

/-- The keys of an array's elements; any other cell is its own only
element. -/
def elementKeys : Cell → List Key
  | .intArray vs => vs.map fun v => (Cell.int v).key
  | .longArray vs => vs.map fun v => (Cell.long v).key
  | .floatArray vs => vs.map fun v => (Cell.float v).key
  | .doubleArray vs => vs.map fun v => (Cell.double v).key
  | .stringArray vs => vs.map fun v => (Cell.string v).key
  | c => [c.key]

/-- Give every element of every document a group number where the limit
allows. -/
def assignElements (keys : GroupKeys) : List Row → List (List Nat) × GroupKeys
  | [] => ([], keys)
  | row :: rest =>
    let (numbers, keys) := keys.assignAll ((row.flatMap elementKeys).map ([·]))
    let (more, keys) := assignElements keys rest
    (numbers.filterMap id :: more, keys)

/-- Make room in every holder. -/
def ensureAll (wanted : Nat) : List GroupHolder → Traced (Except QueryError (List GroupHolder))
  | [] => .silent (.ok [])
  | h :: rest =>
    match h.ensure wanted with
    | .error e => .silent (.error e)
    | .ok grown =>
      let events := if grown.resizes = h.resizes then [] else [.groupResize grown.capacity]
      let more := ensureAll wanted rest
      ⟨more.value.map (grown :: ·), events ++ more.events⟩

/-- The column of a block at an index. Documents of single-value groups
must have every column that was asked for. -/
def input (block : Block) (groups : BlockGroups) (index : Option Nat) :
    Except QueryError (Option Column) :=
  match groups with
  | .single _ =>
    (Aggregation.input block index).mapError fun _ =>
      .groupingColumn block.columns.length (index.getD 0)
  | .multi _ => Aggregation.input block index

/-- Fold a block's documents into the holders. -/
def foldBlock (columns : List String) (functions : List AggregateFunction) (block : Block)
    (groups : BlockGroups) (holders : List GroupHolder) : Except QueryError (List GroupHolder) :=
  (functions.zip holders).mapM fun (f, h) => do
    let column ← input block groups (Aggregation.inputIndex columns f)
    (f.aggregateGroups groups.length groups.toLists column h).toExcept

/-- A block without the documents at other positions. -/
def restrict (block : Block) (positions : List Nat) : Block :=
  if positions.length = block.size then block
  else
    { documents := positions.filterMap (block.documents[·]?)
      columns := block.columns.map (·.select positions) }

/-- Number a block's groups: the groups, the part of the block that they
cover, and the keys afterwards. -/
def groupBlock (keyCount : Nat) (multiValue : Bool) (keys : GroupKeys) (block : Block) :
    Except QueryError (BlockGroups × Block × GroupKeys) := do
  if block.columns.length < keyCount then throw (.groupingColumn block.columns.length (keyCount - 1))
  let view ← RowView.ofColumns (block.columns.take keyCount)
  let rows ← (List.range block.size).mapM view.row
  if multiValue then
    let (groups, keys) := assignElements keys rows
    return (.multi groups, block, keys)
  else
    let (numbers, keys) := keys.assignAll (rows.map fun row => row.map Cell.key)
    let kept := numbers.zipIdx.filterMap fun (number, position) => number.map (·, position)
    return (.single (kept.map (·.1)), restrict block (kept.map (·.2)), keys)

/-- Take a block into the groups. -/
def step (columns : List String) (keyCount : Nat) (multiValue : Bool)
    (functions : List AggregateFunction) (state : State) (block : Block) :
    Traced (Except QueryError (Visit State)) :=
  match groupBlock keyCount multiValue state.keys block with
  | .error e => .silent (.error e)
  | .ok (groups, covered, keys) =>
    (ensureAll keys.count state.holders).map fun outcome => do
      let holders ← foldBlock columns functions covered groups (← outcome)
      return { state := ⟨keys, holders⟩, documents := block.size }

/-! ## The whole scan -/

/-- The aggregates of one group. -/
def groupRow (functions : List AggregateFunction) (holders : List GroupHolder) (group : Nat) :
    Except QueryError Row :=
  (functions.zip holders).mapM fun (f, h) => f.extractGroup h group

/-- The groups of a finished scan. -/
def table (functions : List AggregateFunction) (state : State) : Except QueryError GroupTable :=
  state.keys.tuples.zipIdx.foldlM
    (fun table (tuple, group) => do return table.insert tuple (← groupRow functions state.holders group))
    GroupTable.empty

/-- The statistics of a finished scan. -/
def stats (segment : Segment) (scanned : Scanned State) : ExecutionStats :=
  { scanned.stats segment.totalDocs with
    groupsLimitReached := scanned.state.keys.limitReached
    resizes := scanned.state.holders.foldl (fun n h => Counter.add n h.resizes) 0 }

/-- The aggregates of a segment's matching documents, by group. -/
def run (segment : Segment) (groupBy : List String) (functions : List AggregateFunction)
    (options : Options) : Traced (Except QueryError PartialResult) :=
  match schema segment groupBy functions with
  | .error e => .silent (.error e)
  | .ok (schema, multiValue) =>
    let columns := Aggregation.fetchedColumns groupBy functions
    let limit := options.numGroupsLimit
    let state : State :=
      { keys := .new limit
        holders := functions.map (·.groupHolder (min options.maxInitialCapacity limit) limit) }
    (scanWith .groupBy (segment.scan columns options.nullHandling)
      (step columns groupBy.length multiValue functions) state).map fun outcome => do
        let scanned ← outcome
        return ⟨schema, .groupBy (← table functions scanned.state), stats segment scanned, []⟩

/-! ## Room for the holders -/

/-- The bytes that each function's holder begins with. -/
def holderBytes (options : Options) : Nat :=
  GroupHolder.firstBytes options.maxInitialCapacity options.numGroupsLimit

/-- Whether the holders of some functions can be allocated. -/
def Allocatable (functions : List AggregateFunction) (options : Options) : Prop :=
  functions = [] ∨ holderBytes options ≤ Number.maxAllocation

instance instDecidableAllocatable (functions : List AggregateFunction) (options : Options) :
    Decidable (Allocatable functions options) :=
  inferInstanceAs (Decidable (functions = [] ∨ holderBytes options ≤ Number.maxAllocation))

/-- Ask for the holders' room once the columns are known, and run. -/
def attempt (segment : Segment) (groupBy : List String) (functions : List AggregateFunction)
    (options : Options) : Traced (Except QueryError PartialResult) :=
  match schema segment groupBy functions with
  | .error e => .silent (.error e)
  | .ok _ =>
    if Allocatable functions options then run segment groupBy functions options
    else .silent (.error (.allocation .aggregate (holderBytes options)))

end GroupBy

end SegmentQuery
