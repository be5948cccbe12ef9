import DoublesLineup.Estimate.Blend
import DoublesLineup.Schedule.Known
/-! # Optimiser configuration

Every setting has a default, so any part of a configuration may be left out. A configuration
is valid when both probability bounds are valid, the greatest secondary weight is in
`[0, 0.5]`, exhaustive enumeration is allowed for 2 to 14 players, the search makes at least
one restart and one pass, and data goes stale after a positive, finite number of hours. The
first failed check is reported.
-/

namespace DoublesLineup

/-- The settings of the approximate search. -/
structure SearchConfig where
  /-- The number of random starting pairings. -/
  restarts : Nat := 32
  /-- The most improving moves per start. -/
  maxPasses : Nat := 64
  /-- The seed of the random generator. -/
  seed : Nat := 0x5EED
  deriving Inhabited

/-- Checks that the search makes at least one restart and one pass. -/
def SearchConfig.validate (c : SearchConfig) : Except String Unit :=
  if c.restarts = 0 then .error "at least one search restart is required"
  else if c.maxPasses = 0 then .error "at least one search pass is required"
  else pure ()

/-- The largest roster that may be configured for exhaustive enumeration. -/
def exhaustivePlayersCeiling : Nat := 14

/-- The optimiser's settings. -/
structure Config where
  scoringBounds : ProbabilityBounds := .scoring
  calibrationBounds : ProbabilityBounds := .calibration
  maxSecondaryWeight : Float := Blender.defaultMaxSecondaryWeight
  /-- Rosters up to this size are enumerated; larger ones are searched. -/
  maxExhaustivePlayers : Nat := 12
  search : SearchConfig := {}
  /-- The age in hours after which statistics are reported stale. -/
  staleAfterHours : Float := 24.0
  knownAggregation : Aggregation := .perRound
  deriving Inhabited

namespace Config

/-- Checks the configuration, reporting the first failure. -/
def validate (c : Config) : Except String Unit := do
  c.scoringBounds.validate
  c.calibrationBounds.validate
  if !(0.0 ≤ c.maxSecondaryWeight && c.maxSecondaryWeight ≤ 0.5) then
    throw "maximum secondary weight must be in the range [0, 0.5]"
  if !(2 ≤ c.maxExhaustivePlayers && c.maxExhaustivePlayers ≤ exhaustivePlayersCeiling) then
    throw s!"maximum exhaustive players must be in the range 2..={exhaustivePlayersCeiling}"
  c.search.validate
  if !c.staleAfterHours.isFinite || c.staleAfterHours ≤ 0.0 then
    throw "staleness threshold must be a positive number of hours"

/-- The blender used in scoring. -/
def scoringBlender (c : Config) : Blender := ⟨c.scoringBounds, c.maxSecondaryWeight⟩

/-- The blender used against held-out outcomes. -/
def calibrationBlender (c : Config) : Blender := ⟨c.calibrationBounds, c.maxSecondaryWeight⟩

end Config

end DoublesLineup
