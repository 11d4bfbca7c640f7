import RunCompare.Aggregation
import RunCompare.Analysis
import RunCompare.Binary64.Basic
import RunCompare.Binary64.Normal
import RunCompare.Binary64.Scalar
import RunCompare.CommandLine.Options
import RunCompare.CommandLine.Run
import RunCompare.Comparison.Basic
import RunCompare.Comparison.Json
import RunCompare.Comparison.Metric
import RunCompare.Comparison.Pair
import RunCompare.Comparison.Speedup
import RunCompare.Config
import RunCompare.Config.Reader
import RunCompare.Decimal.Basic
import RunCompare.Decimal.Fixed
import RunCompare.Decimal.Literal
import RunCompare.Decimal.Notation
import RunCompare.Decimal.Shortest
import RunCompare.Disk
import RunCompare.Error
import RunCompare.FieldPath
import RunCompare.Grouping
import RunCompare.Ingest
import RunCompare.Json.Basic
import RunCompare.Json.Fields
import RunCompare.Json.Number
import RunCompare.Json.Reader
import RunCompare.Json.Writer
import RunCompare.KeyMap
import RunCompare.Main
import RunCompare.Metric.Basic
import RunCompare.Metric.Catalog
import RunCompare.Metric.Fields
import RunCompare.Metric.Standard
import RunCompare.Path
import RunCompare.Pivot
import RunCompare.Proofs.Grouping
import RunCompare.Proofs.KeyMap
import RunCompare.Proofs.Pointwise
import RunCompare.Proofs.Run.Breakdown
import RunCompare.Proofs.Stats.Description
import RunCompare.Report.Cell
import RunCompare.Report.Console
import RunCompare.Report.Format
import RunCompare.Report.Json
import RunCompare.Report.Markdown
import RunCompare.Report.Render
import RunCompare.Run.Basic
import RunCompare.Run.Group
import RunCompare.Run.Phase
import RunCompare.Scalar
import RunCompare.Stats.Description
import RunCompare.Stats.Moments
import RunCompare.Stats.Outlier
import RunCompare.Stats.Quantile
import RunCompare.Stats.RankTest
import RunCompare.Stats.Regression
import RunCompare.Stats.Summary
import RunCompare.Text.Blank
import RunCompare.Text.Hex
import RunCompare.Text.Line
import RunCompare.Text.Start
import RunCompare.Timestamp
import RunCompare.Toml.Basic
import RunCompare.Toml.Document
import RunCompare.Toml.Key
import RunCompare.Toml.Line
import RunCompare.Toml.Moment
import RunCompare.Toml.Number
import RunCompare.Toml.Quoted
import RunCompare.Toml.Reader
import RunCompare.Proofs.Aggregation
import RunCompare.Proofs.Binary64.Pattern
import RunCompare.Proofs.Binary64.Order
import RunCompare.Proofs.Binary64.Quotient
import RunCompare.Proofs.Comparison.Pairing
import RunCompare.Proofs.Exact
import RunCompare.Proofs.Stats.RankTest
import RunCompare.Proofs.Comparison.Exchange
import RunCompare.Proofs.Metric.Standard
import RunCompare.Proofs.Stats.Affine
import RunCompare.Proofs.Rescaling
import RunCompare.Proofs.Comparison.Rescaling
import RunCompare.Proofs.Stats.Reordering
import RunCompare.Proofs.Comparison.Reordering
import RunCompare.Proofs.Aggregation.Outcome
import RunCompare.Proofs.Aggregation.Reordering
import RunCompare.Proofs.Comparison.Locality
import RunCompare.Proofs.Json.Leaves
import RunCompare.Proofs.Pivot
import RunCompare.Proofs.Json.Canonical
import RunCompare.Proofs.Comparison.Rows
import RunCompare.Proofs.Json.Fields
import RunCompare.Proofs.Run.Codec
import RunCompare.Proofs.Faults.Arithmetic
import RunCompare.Proofs.Faults.Stats
import RunCompare.Proofs.Faults.Analysis
import RunCompare.Proofs.Binary64.Product
import RunCompare.Proofs.Indices.Ranks
import RunCompare.Proofs.Indices.Slots
import RunCompare.Proofs.Indices.TieRuns
import RunCompare.Proofs.Json.Serial
import RunCompare.Proofs.Comparison.Serial
import RunCompare.Proofs.Analysis
import RunCompare.Proofs.Json.Reordering
import RunCompare.Proofs.Run.Grammar
import RunCompare.Proofs.Aggregation.FlatRecord
import RunCompare.Proofs.FieldPath
import RunCompare.Proofs.Metric.Fields
import RunCompare.Proofs.CommandLine.Effect
import RunCompare.Proofs.Ingest
import RunCompare.Proofs.Metric.Catalog
import RunCompare.Proofs.Report.Json
import RunCompare.Proofs.Report.Tables
import RunCompare.Proofs.Stats.Moments
import RunCompare.Proofs.Stats.LeastSquares
import RunCompare.Proofs.Stats.PairCount
import RunCompare.Proofs.Comparison.Direction
import RunCompare.Proofs.Stats.Sorting
import RunCompare.Proofs.Stats.Quantile
import RunCompare.Proofs.Stats.Outlier
import RunCompare.Proofs.Stats.Mirror
import RunCompare.Proofs.Binary64.Arithmetic
import RunCompare.Proofs.Stats.Fences
import RunCompare.Proofs.Stats.Range
import RunCompare.Proofs.Metric.Measures
import RunCompare.Proofs.Aggregation.Described
import RunCompare.Proofs.Comparison.Absence
import RunCompare.Proofs.Comparison.Shares
import RunCompare.Proofs.Binary64.TotalOrder
import RunCompare.Proofs.Report.Markdown
import RunCompare.Proofs.Report.Labels
import RunCompare.Proofs.Stats.SecondPass
import RunCompare.Proofs.Stats.Spread
import RunCompare.Proofs.Grouping.Partition
import RunCompare.Proofs.Aggregation.StatisticKeys
