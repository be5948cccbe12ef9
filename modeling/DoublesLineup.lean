import DoublesLineup.Roster.Player
import DoublesLineup.Digest.Sha256
import DoublesLineup.Decimal.Shortest
import DoublesLineup.Decimal.Text
import DoublesLineup.Json.Value
import DoublesLineup.Json.Print
import DoublesLineup.Fault
import DoublesLineup.Roster.Pair
import DoublesLineup.Roster.Pairing
import DoublesLineup.Roster.Matching
import DoublesLineup.Json.Parse
import DoublesLineup.Numeric.Ieee
import DoublesLineup.Stats.Sample
import DoublesLineup.Estimate.Blend
import DoublesLineup.Estimate.Calibration
import DoublesLineup.Time.Timestamp
import DoublesLineup.Bundle.Basic
import DoublesLineup.Estimate.Lookup
import DoublesLineup.Score.Basic
import DoublesLineup.Score.Blind
import DoublesLineup.Schedule.Template
import DoublesLineup.Schedule.Known
import DoublesLineup.Json.Decode
import DoublesLineup.Ident.Uuid
import DoublesLineup.Optimizer.Config
import DoublesLineup.Request.Basic
import DoublesLineup.Request.Validate
import DoublesLineup.Search.Wyrand
import DoublesLineup.Search.Climb
import DoublesLineup.Optimizer.Evaluate
import DoublesLineup.Optimizer.Respond
import DoublesLineup.Bundle.Json
import DoublesLineup.Request.Json
import DoublesLineup.Optimizer.Config.Json
import DoublesLineup.Console.Table
import DoublesLineup.Console.Report
import DoublesLineup.Text.Escape
import DoublesLineup.Json.Shape
import DoublesLineup.Command.Options
import DoublesLineup.Command.Outcome
import DoublesLineup.Command.Recommend
import DoublesLineup.Command.Calibrate
import DoublesLineup.Main
import DoublesLineup.Proofs.Roster.Partition
import DoublesLineup.Proofs.Except
import DoublesLineup.Proofs.Numeric.Order
import DoublesLineup.Proofs.Numeric.Rank
import DoublesLineup.Proofs.Numeric.Sum
import DoublesLineup.Proofs.Numeric.Total
import DoublesLineup.Proofs.Numeric.Value
import DoublesLineup.Proofs.Score.Order
import DoublesLineup.Proofs.Roster.Matching
import DoublesLineup.Proofs.Roster.Enumerate
import DoublesLineup.Proofs.Estimate.Lookup
import DoublesLineup.Proofs.Estimate.Bounded
import DoublesLineup.Proofs.Score.Blind
import DoublesLineup.Proofs.Schedule.Known
import DoublesLineup.Proofs.Optimizer.Exhaustive
import DoublesLineup.Proofs.Search.Climb
import DoublesLineup.Proofs.Optimizer.Total
import DoublesLineup.Proofs.Search.Descent
import DoublesLineup.Proofs.Estimate.Index
import DoublesLineup.Proofs.Request.Acceptance
import DoublesLineup.Proofs.Schedule.PairOrder
import DoublesLineup.Proofs.Schedule.Greedy
import DoublesLineup.Proofs.Schedule.Fill
import DoublesLineup.Proofs.Schedule.Approximation
import DoublesLineup.Proofs.Score.Reference
import DoublesLineup.Proofs.Score.Reorder
import DoublesLineup.Proofs.Roster.Identifier
import DoublesLineup.Proofs.Estimate.Reliable
import DoublesLineup.Proofs.Numeric.Nearest
import DoublesLineup.Proofs.Numeric.Rounded
import DoublesLineup.Proofs.Numeric.Extended
import DoublesLineup.Proofs.Estimate.Weight
import DoublesLineup.Proofs.Estimate.LogLoss
import DoublesLineup.Proofs.Roster.Repeated
import DoublesLineup.Proofs.Roster.Key
import DoublesLineup.Proofs.Stats.Quantile
import DoublesLineup.Proofs.Stats.Weights
import DoublesLineup.Proofs.Search.Neighbourhood
import DoublesLineup.Proofs.Score.Exact
