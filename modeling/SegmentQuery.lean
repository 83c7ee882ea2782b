import SegmentQuery.Aggregate.Accumulator
import SegmentQuery.Aggregate.Fold
import SegmentQuery.Aggregate.Function
import SegmentQuery.Aggregate.GroupKeys
import SegmentQuery.Aggregate.Groups
import SegmentQuery.Aggregate.Merge
import SegmentQuery.Block.RowView
import SegmentQuery.Block.Source
import SegmentQuery.Broker.Reduce
import SegmentQuery.Broker.Render
import SegmentQuery.Cbor.Bytes
import SegmentQuery.Cbor.Item
import SegmentQuery.Cbor.Read
import SegmentQuery.Cbor.View
import SegmentQuery.Cell.Basic
import SegmentQuery.Cell.Key
import SegmentQuery.Cell.Kind
import SegmentQuery.Cell.Order
import SegmentQuery.Column.Basic
import SegmentQuery.Column.Numeric
import SegmentQuery.ColumnType.Basic
import SegmentQuery.ColumnType.Convert
import SegmentQuery.Counter
import SegmentQuery.Decimal.Basic
import SegmentQuery.Decimal.Bytes
import SegmentQuery.Decimal.Reading
import SegmentQuery.Decimal.Rounding
import SegmentQuery.Decimal.Text
import SegmentQuery.Direction
import SegmentQuery.Distinct.Values
import SegmentQuery.DocSet
import SegmentQuery.Error.Basic
import SegmentQuery.Error.Exception
import SegmentQuery.Metrics
import SegmentQuery.Number.Double
import SegmentQuery.Number.Layout
import SegmentQuery.Number.Power
import SegmentQuery.Number.Shortest
import SegmentQuery.Operator.Aggregation
import SegmentQuery.Operator.Distinct
import SegmentQuery.Operator.GroupBy
import SegmentQuery.Operator.Scan
import SegmentQuery.Operator.Selection
import SegmentQuery.Options.Basic
import SegmentQuery.Options.Json
import SegmentQuery.Progress
import SegmentQuery.Proofs.Aggregate.AlikeHolders
import SegmentQuery.Proofs.Aggregate.Bounds
import SegmentQuery.Proofs.Aggregate.CallSyntax
import SegmentQuery.Proofs.Aggregate.Effects
import SegmentQuery.Proofs.Aggregate.Extrema
import SegmentQuery.Proofs.Aggregate.FailedFolds
import SegmentQuery.Proofs.Aggregate.Folding
import SegmentQuery.Proofs.Aggregate.HolderCalls
import SegmentQuery.Proofs.Aggregate.MergeLaws
import SegmentQuery.Proofs.Aggregate.Reaching
import SegmentQuery.Proofs.Aggregate.Settling
import SegmentQuery.Proofs.Aggregate.Slots
import SegmentQuery.Proofs.Aggregate.SumScales
import SegmentQuery.Proofs.Aggregate.SumTexts
import SegmentQuery.Proofs.Aggregate.Summaries
import SegmentQuery.Proofs.Aggregate.Totals
import SegmentQuery.Proofs.Aggregate.WholeSums
import SegmentQuery.Proofs.Block.RowReads
import SegmentQuery.Proofs.BlockSizes
import SegmentQuery.Proofs.Broker.Aggregates
import SegmentQuery.Proofs.Broker.Answers
import SegmentQuery.Proofs.Broker.Distinct
import SegmentQuery.Proofs.Broker.DistinctWindow
import SegmentQuery.Proofs.Broker.GroupLimit
import SegmentQuery.Proofs.Broker.GroupOrder
import SegmentQuery.Proofs.Broker.Groupings
import SegmentQuery.Proofs.Broker.Groups
import SegmentQuery.Proofs.Broker.Interchange
import SegmentQuery.Proofs.Broker.ScanWindow
import SegmentQuery.Proofs.Broker.SelectedColumns
import SegmentQuery.Proofs.Broker.ShownCells
import SegmentQuery.Proofs.Broker.Window
import SegmentQuery.Proofs.Column.Copies
import SegmentQuery.Proofs.Column.NullCounts
import SegmentQuery.Proofs.Distinct.Calls
import SegmentQuery.Proofs.Distinct.Kept
import SegmentQuery.Proofs.Distinct.Shown
import SegmentQuery.Proofs.Except
import SegmentQuery.Proofs.FittingRuns
import SegmentQuery.Proofs.Heap.Offer
import SegmentQuery.Proofs.Heap.Sift
import SegmentQuery.Proofs.Lockstep
import SegmentQuery.Proofs.Number.ByteForms
import SegmentQuery.Proofs.Number.Nearest
import SegmentQuery.Proofs.Number.Numerals
import SegmentQuery.Proofs.Number.Patterns
import SegmentQuery.Proofs.Number.PlainText
import SegmentQuery.Proofs.Number.Rounding
import SegmentQuery.Proofs.Number.Sums
import SegmentQuery.Proofs.Number.Widening
import SegmentQuery.Proofs.Number.Zeros
import SegmentQuery.Proofs.Operator.Absorbing
import SegmentQuery.Proofs.Operator.Aggregating
import SegmentQuery.Proofs.Operator.Distinct
import SegmentQuery.Proofs.Operator.DistinctScans
import SegmentQuery.Proofs.Operator.GroupNumbers
import SegmentQuery.Proofs.Operator.GroupRooms
import SegmentQuery.Proofs.Operator.GroupedScalars
import SegmentQuery.Proofs.Operator.GroupedTuples
import SegmentQuery.Proofs.Operator.Grouping
import SegmentQuery.Proofs.Operator.LimitedGroups
import SegmentQuery.Proofs.Operator.Numbering
import SegmentQuery.Proofs.Operator.Occurrences
import SegmentQuery.Proofs.Operator.Placing
import SegmentQuery.Proofs.Operator.Scanning
import SegmentQuery.Proofs.Operator.Tabulating
import SegmentQuery.Proofs.Order.Cells
import SegmentQuery.Proofs.Order.Decimals
import SegmentQuery.Proofs.Order.Directions
import SegmentQuery.Proofs.Order.Firsts
import SegmentQuery.Proofs.Order.Keys
import SegmentQuery.Proofs.Order.Rows
import SegmentQuery.Proofs.Order.Sorting
import SegmentQuery.Proofs.Progress
import SegmentQuery.Proofs.Result.Combining
import SegmentQuery.Proofs.Result.FailedMerges
import SegmentQuery.Proofs.Result.Failures
import SegmentQuery.Proofs.Result.Fits
import SegmentQuery.Proofs.Result.GroupTables
import SegmentQuery.Proofs.Result.Holding
import SegmentQuery.Proofs.Result.LimitFlag
import SegmentQuery.Proofs.Result.Metadata
import SegmentQuery.Proofs.Result.NullSets
import SegmentQuery.Proofs.Result.Tables
import SegmentQuery.Proofs.Result.Tabulated
import SegmentQuery.Proofs.Runs
import SegmentQuery.Proofs.ScanMetrics
import SegmentQuery.Proofs.Segment.Alike
import SegmentQuery.Proofs.Segment.Cells
import SegmentQuery.Proofs.Segment.Partitions
import SegmentQuery.Proofs.Segment.Scans
import SegmentQuery.Proofs.Selection.Arena
import SegmentQuery.Proofs.Selection.FirstPass
import SegmentQuery.Proofs.Selection.Keys
import SegmentQuery.Proofs.Selection.MergeTrees
import SegmentQuery.Proofs.Selection.Merging
import SegmentQuery.Proofs.Selection.OnePass
import SegmentQuery.Proofs.Selection.OrderedRows
import SegmentQuery.Proofs.Selection.Plans
import SegmentQuery.Proofs.Selection.PreSorted
import SegmentQuery.Proofs.Selection.SecondPass
import SegmentQuery.Proofs.Selection.Strategies
import SegmentQuery.Proofs.Selection.TwoPass
import SegmentQuery.Proofs.Selection.Unordered
import SegmentQuery.Proofs.TotalRuns
import SegmentQuery.Proofs.Wire.Bytes
import SegmentQuery.Proofs.Wire.Cells
import SegmentQuery.Proofs.Wire.Items
import SegmentQuery.Proofs.Wire.NullSets
import SegmentQuery.Proofs.Wire.Payloads
import SegmentQuery.Proofs.Wire.Tables
import SegmentQuery.Proofs.Wire.Views
import SegmentQuery.Query
import SegmentQuery.Result.Combine
import SegmentQuery.Result.GroupTable
import SegmentQuery.Result.NullSet
import SegmentQuery.Result.Partial
import SegmentQuery.Result.Schema
import SegmentQuery.Result.Stats
import SegmentQuery.Result.Table
import SegmentQuery.Segment.Memory
import SegmentQuery.Selection.Expressions
import SegmentQuery.Selection.Order
import SegmentQuery.Selection.OrderedRows
import SegmentQuery.Selection.RowArena
import SegmentQuery.StoredType
import SegmentQuery.Text.Blank
import SegmentQuery.Text.Json
import SegmentQuery.Text.Numeral
import SegmentQuery.TopK
import SegmentQuery.Wire.Cell
import SegmentQuery.Wire.NullSet
import SegmentQuery.Wire.Table
