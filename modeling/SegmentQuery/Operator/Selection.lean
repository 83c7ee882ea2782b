import SegmentQuery.Block.RowView
import SegmentQuery.Operator.Scan
import SegmentQuery.Options.Basic
import SegmentQuery.Selection.Expressions
import SegmentQuery.Selection.RowArena
/-!
# Selection over one segment

Without ORDER BY a selection takes the first `offset + limit` rows in
scan order. With ORDER BY it chooses among three strategies:

* documents that already arrive in order are taken from the front;
* when every fetched expression is an ORDER BY one, all rows are offered
  to a bounded heap;
* otherwise a first pass offers rows of ORDER BY cells alone, and a
  second one fetches the other cells for the documents that survived.
  The rows stay in one place while a heap orders them by their places.
-/


namespace SegmentQuery

namespace Selection

/-- The schema of fetched expressions. -/
def schema (segment : Segment) (expressions : List String) : Except QueryError Schema := do
  let columns ← expressions.mapM fun expression => do
    let metadata ← segment.metadata expression
    return { name := expression, type := ← metadata.columnType, role := metadata.role : ResultColumn }
  return ⟨columns⟩

/-- The rows of a block's first `count` documents. -/
def firstRows (block : Block) (count : Nat) : Except QueryError (List Row) := do
  let view ← RowView.ofColumns block.columns
  (List.range count).mapM view.row

/-! ## Without an order -/

/-- Take rows from a block until `keep` are there. -/
def takeStep (keep : Nat) (rows : List Row) (block : Block) :
    Except QueryError (Visit (List Row)) := do
  let count := min block.size (keep - rows.length)
  let rows := rows ++ (← firstRows block count)
  return { state := rows, documents := count, finished := decide (keep ≤ rows.length) }

/-- A selection without ORDER BY. A zero limit yields the schema
alone. -/
def runUnordered (segment : Segment) (select : List String) (options : Options) :
    Traced (Except QueryError PartialResult) :=
  let expressions := fetchedExpressions select [] options.limit segment.columnNames
  match schema segment expressions with
  | .error e => .silent (.error e)
  | .ok schema =>
    if options.limit = 0 then
      scanNothing .selection <|
        .ok ⟨schema, .selection [], ExecutionStats.forSegment segment.totalDocs, []⟩
    else
      (scanWith .selection (segment.scan expressions options.nullHandling)
        (quietly (takeStep options.rowsToKeep)) []).map fun outcome =>
          outcome.map fun scanned =>
            ⟨schema, .selection scanned.state, scanned.stats segment.totalDocs, []⟩

/-! ## With an order -/

/-- How the rows of an ordered selection are found. -/
inductive Strategy
  | preSorted
  | allOrdered
  | partiallyOrdered
  deriving DecidableEq, Repr

def Strategy.name : Strategy → String
  | .preSorted => "PreSorted"
  | .allOrdered => "AllOrdered"
  | .partiallyOrdered => "PartiallyOrdered"

/-- An ordered selection over one segment. The first `orderWidth`
expressions are those of the ORDER BY list. -/
structure Plan where
  segment : Segment
  orderItems : List OrderItem
  expressions : List String
  orderWidth : Nat
  keep : Nat
  nullHandling : Bool

namespace Plan

def make (segment : Segment) (select : List String) (orderItems : List OrderItem)
    (options : Options) : Plan where
  segment := segment
  orderItems := orderItems
  expressions := fetchedExpressions select orderItems options.limit segment.columnNames
  orderWidth := (fetchedExpressions [] orderItems options.limit []).length
  keep := options.rowsToKeep
  nullHandling := options.nullHandling

def strategy (p : Plan) : Strategy :=
  if p.orderItems.all fun item => item.direction.isAsc && p.segment.isSortedOn item.expression then
    .preSorted
  else if p.expressions.length = p.orderWidth then .allOrdered
  else .partiallyOrdered

/-- The direction in which an expression is ordered: that of the first
item naming it. -/
def directionOf (p : Plan) (expression : String) : Direction :=
  ((p.orderItems.find? (·.expression == expression)).map OrderItem.direction).getD .asc

/-- The keys of some ORDER BY expressions that stand at `index` and
after. Multi-value columns take no part in the order. -/
def keysFrom (p : Plan) : List String → Nat → Except QueryError (List (Nat × Direction))
  | [], _ => .ok []
  | expression :: rest, index => do
    let metadata ← p.segment.metadata expression
    let keys ← p.keysFrom rest (index + 1)
    return if metadata.singleValue then (index, p.directionOf expression) :: keys else keys

/-- The order of the plan's rows. -/
def order (p : Plan) : Except QueryError RowOrder :=
  (p.keysFrom (p.expressions.take p.orderWidth) 0).map RowOrder.mk

/-! ### One pass -/

/-- Offer the rows of a block's first `count` documents, one after the
other. -/
def offerFirst (block : Block) (count : Nat) (rows : OrderedRows) :
    Except QueryError OrderedRows := do
  let view ← RowView.ofColumns block.columns
  (List.range count).foldlM (fun rows position => do
    let row ← view.row position
    return (← rows.offer row).2) rows

/-- Offer the rows of documents from the front of the input. -/
def frontStep (p : Plan) (state : OrderedRows × Nat) (block : Block) :
    Except QueryError (Visit (OrderedRows × Nat)) := do
  let (rows, scanned) := state
  let count := min block.size (p.keep - scanned)
  let rows ← offerFirst block count rows
  return { state := (rows, scanned + count), documents := count
           finished := decide (p.keep ≤ scanned + count) }

/-- Offer the rows of all documents. -/
def offerStep (rows : OrderedRows) (block : Block) : Except QueryError (Visit OrderedRows) := do
  let rows ← offerFirst block block.size rows
  return { state := rows, documents := block.size }

/-! ### Two passes -/

/-- A document in the heap of the first pass, and the place of its row
in the row storage. -/
structure Candidate where
  document : Nat
  place : Nat
  deriving DecidableEq

/-- The first pass in progress: the candidates, and their rows as far as
they are filled. -/
structure FirstPass where
  heap : TopK Candidate
  arena : RowArena

/-- The order of candidates is that of their rows. -/
def compareIn (order : RowOrder) (arena : RowArena) (a b : Candidate) : Ordering :=
  order.compare (arena.get a.place) (arena.get b.place)

/-- The ORDER BY cells of one document, in a row with room for all
cells. -/
def leadingRow (p : Plan) (order : RowOrder) (view : RowView) (position : Nat) :
    Except QueryError Row := do
  let row ← (view.fill position 0 (List.replicate p.expressions.length .null)).toExcept
  order.validate row
  return row

/-- Whether a full heap turns a row away without storing it: the row is
not better than the worst candidate's. -/
def refuses (order : RowOrder) (state : FirstPass) (row : Row) : Bool :=
  match state.heap.worst? with
  | some worst =>
    state.heap.isFull && order.compare row (state.arena.get worst.place) != .lt
  | none => false

/-- Offer a document with its row. The place of a candidate that is not
kept is released. -/
def offerCandidate (order : RowOrder) (state : FirstPass) (document : Nat) (row : Row) :
    FirstPass :=
  if refuses order state row then state
  else
    let (place, arena) := state.arena.insert row
    let (outcome, heap) := state.heap.offer (compareIn order arena) ⟨document, place⟩
    match outcome with
    | .inserted => ⟨heap, arena⟩
    | .replaced evicted => ⟨heap, arena.release evicted.place⟩
    | .rejected item => ⟨heap, arena.release item.place⟩

/-- Offer the documents of a block, one after the other. -/
def candidateStep (p : Plan) (order : RowOrder) (state : FirstPass) (block : Block) :
    Except QueryError (Visit FirstPass) := do
  let view ← RowView.ofColumns block.columns
  let state ← block.documents.zipIdx.foldlM (fun state (document, position) => do
    return offerCandidate order state document (← p.leadingRow order view position)) state
  return { state := state, documents := block.size }

/-- Complete the rows of a block's documents, which must be the next of
the survivors. Yields the survivors still to come. -/
def completeBlock (p : Plan) (view : RowView) :
    List (Nat × Nat) → List Candidate → RowArena → Except QueryError (List Candidate × RowArena)
  | [], waiting, arena => .ok (waiting, arena)
  | (document, _) :: _, [], _ => .error (.unexpectedDocument document)
  | (document, position) :: rest, next :: waiting, arena => do
    if next.document ≠ document then throw (.unexpectedDocument document)
    let row ← (view.fill position p.orderWidth (arena.get next.place)).toExcept
    p.completeBlock view rest waiting (arena.set next.place row)

/-- Complete rows block by block. Yields the rows and how many documents
were fetched. -/
def completeAll (p : Plan) :
    List Candidate → RowArena → List (Except QueryError Block) → Except QueryError (RowArena × Nat)
  | _, arena, [] => .ok (arena, 0)
  | waiting, arena, pull :: rest => do
    let block ← pull
    let view ← RowView.ofColumns block.columns
    let (waiting, arena) ← p.completeBlock view block.documents.zipIdx waiting arena
    let (arena, fetched) ← p.completeAll waiting arena rest
    return (arena, block.size + fetched)

/-- Fetch the other cells for the documents in the heap. Yields the
heap of full rows, in the layout of the candidates, and the entries
read. -/
def secondPass (p : Plan) (state : FirstPass) : Except QueryError (TopK Row × Nat) := do
  let survivors := state.heap.toList.mergeSort fun a b => a.document ≤ b.document
  let documents := DocSet.ofList (survivors.map Candidate.document)
  let source ← p.segment.scanDocs (p.expressions.drop p.orderWidth) documents p.nullHandling
  let (arena, fetched) ← p.completeAll survivors state.arena source.pulls
  if fetched ≠ survivors.length then throw (.secondPassCount fetched survivors.length)
  let rows := arena.takeAll (state.heap.toList.map Candidate.place)
  return (⟨rows.toArray, state.heap.maximum⟩, fetched * source.columnsProjected)

/-! ### Execution -/

/-- Scan in one pass, from the front or whole. -/
def runOnePass (p : Plan) (order : RowOrder) : Traced (Except QueryError (OrderedRows × ExecutionStats)) :=
  let source := p.segment.scan p.expressions p.nullHandling
  let rows := OrderedRows.empty order p.keep
  match p.strategy with
  | .preSorted =>
    (scanWith .selectionOrderBy source (quietly p.frontStep) (rows, 0)).map fun outcome =>
      outcome.map fun scanned => (scanned.state.1, scanned.stats p.segment.totalDocs)
  | _ =>
    (scanWith .selectionOrderBy source (quietly offerStep) rows).map fun outcome =>
      outcome.map fun scanned => (scanned.state, scanned.stats p.segment.totalDocs)

/-- Scan in two passes. Only the first one counts as scanning, but both
read entries. -/
def runTwoPasses (p : Plan) (order : RowOrder) :
    Traced (Except QueryError (OrderedRows × ExecutionStats)) :=
  let source := p.segment.scan (p.expressions.take p.orderWidth) p.nullHandling
  (scanWith .selectionOrderBy source (quietly (p.candidateStep order)) ⟨.empty p.keep, .empty⟩).map
    fun outcome => do
      let scanned ← outcome
      let (heap, entries) ← p.secondPass scanned.state
      let stats := scanned.stats p.segment.totalDocs
      return (⟨heap, order⟩,
        { stats with entriesPostFilter := Counter.add stats.entriesPostFilter entries })

/-- Run the plan. -/
def run (p : Plan) : Traced (Except QueryError PartialResult) :=
  match (do return (← schema p.segment p.expressions, ← p.order)) with
  | .error e => .silent (.error e)
  | .ok (schema, order) =>
    let rows :=
      if p.keep = 0 then
        scanNothing .selectionOrderBy
          (.ok (OrderedRows.empty order 0, ExecutionStats.forSegment p.segment.totalDocs))
      else if p.strategy = .partiallyOrdered then p.runTwoPasses order
      else p.runOnePass order
    rows.map fun outcome =>
      outcome.map fun (rows, stats) => ⟨schema, .orderedSelection rows, stats, []⟩

end Plan

end Selection

end SegmentQuery
