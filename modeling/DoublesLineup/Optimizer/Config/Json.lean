import DoublesLineup.Optimizer.Config
import DoublesLineup.Estimate.Calibration
import DoublesLineup.Bundle.Json
/-! # The JSON forms of a configuration and of held-out rows

A configuration is an object with snake-case keys, every one of which may be left out; the
probability bounds inside it need both their ends. Written back, a configuration shows every
setting. A held-out row needs its win rate and its outcome; its other signals may be left out.
-/

namespace DoublesLineup

namespace Decoder

/-- Probability bounds: both ends must be given. -/
def bounds : Decoder ProbabilityBounds := fun j => do
  let r ← Record.read "ProbabilityBounds" ["lower", "upper"] j
  pure ⟨← r.need "lower" float, ← r.need "upper" float⟩

/-- An aggregation. -/
def aggregation : Decoder Aggregation :=
  variant [("per_round", .perRound), ("per_slot", .perSlot)] ["per_round", "per_slot"]

/-- The search settings; each may be left out. -/
def searchConfig : Decoder SearchConfig := fun j => do
  let r ← Record.read "SearchConfig" ["restarts", "max_passes", "seed"] j
  let d : SearchConfig := {}
  pure ⟨← r.withDefault "restarts" usize d.restarts, ← r.withDefault "max_passes" usize d.maxPasses,
    ← r.withDefault "seed" u64 d.seed⟩

/-- A configuration; each setting may be left out. -/
def config : Decoder Config := fun j => do
  let r ← Record.read "Config" ["scoring_bounds", "calibration_bounds", "max_secondary_weight",
    "max_exhaustive_players", "search", "stale_after_hours", "known_aggregation"] j
  let d : Config := {}
  pure {
    scoringBounds := (← r.withDefault "scoring_bounds" bounds d.scoringBounds)
    calibrationBounds := (← r.withDefault "calibration_bounds" bounds d.calibrationBounds)
    maxSecondaryWeight := (← r.withDefault "max_secondary_weight" float d.maxSecondaryWeight)
    maxExhaustivePlayers := (← r.withDefault "max_exhaustive_players" usize d.maxExhaustivePlayers)
    search := (← r.withDefault "search" searchConfig d.search)
    staleAfterHours := (← r.withDefault "stale_after_hours" float d.staleAfterHours)
    knownAggregation := (← r.withDefault "known_aggregation" aggregation d.knownAggregation) }

/-- A held-out row. -/
def holdoutRow : Decoder HoldoutRow := fun j => do
  let r ← Record.read "HoldoutRow" ["win_rate_shrunk", "pd_win_probability", "reliability",
    "signal_correlation", "won"] j
  pure {
    winRateShrunk := (← r.need "win_rate_shrunk" float)
    pdWinProbability := (← r.optional "pd_win_probability" float)
    reliability := (← r.withDefault "reliability" float 0.0)
    signalCorrelation := (← r.optional "signal_correlation" float)
    won := (← r.need "won" bool) }

end Decoder

namespace Shape

/-- Probability bounds: both ends must be given. -/
def bounds : Shape := .record "ProbabilityBounds" [("lower", .float, false), ("upper", .float, false)]

/-- A configuration; each setting may be left out. -/
def config : Shape :=
  .record "Config" [("scoring_bounds", bounds, true), ("calibration_bounds", bounds, true),
    ("max_secondary_weight", .float, true),
    ("max_exhaustive_players", .unsigned "usize" (Nat.pow 2 64 - 1), true),
    ("search", .record "SearchConfig" [("restarts", .unsigned "usize" (Nat.pow 2 64 - 1), true),
      ("max_passes", .unsigned "usize" (Nat.pow 2 64 - 1), true), ("seed", .unsigned "u64" (Nat.pow 2 64 - 1), true)],
      true),
    ("stale_after_hours", .float, true),
    ("known_aggregation", .choice ["per_round", "per_slot"] ["per_round", "per_slot"], true)]

/-- A held-out row. -/
def holdoutRow : Shape :=
  .record "HoldoutRow" [("win_rate_shrunk", .float, false), ("pd_win_probability", .option .float, true),
    ("reliability", .float, true), ("signal_correlation", .option .float, true), ("won", .bool, false)]

end Shape

namespace Config

/-- Probability bounds as an object. -/
def boundsJson (b : ProbabilityBounds) : Json :=
  .obj [("lower", .ofFloat b.lower), ("upper", .ofFloat b.upper)]

/-- Every setting of the configuration. -/
def toJson (c : Config) : Json :=
  .obj [("scoring_bounds", boundsJson c.scoringBounds),
    ("calibration_bounds", boundsJson c.calibrationBounds),
    ("max_secondary_weight", .ofFloat c.maxSecondaryWeight),
    ("max_exhaustive_players", .ofNat c.maxExhaustivePlayers),
    ("search", .obj [("restarts", .ofNat c.search.restarts),
      ("max_passes", .ofNat c.search.maxPasses), ("seed", .ofNat c.search.seed)]),
    ("stale_after_hours", .ofFloat c.staleAfterHours),
    ("known_aggregation", .str c.knownAggregation.name)]

end Config

end DoublesLineup
