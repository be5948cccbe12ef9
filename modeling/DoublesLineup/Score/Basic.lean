import DoublesLineup.Numeric.Ieee
/-! # Scores and their order

A score sums up a pairing: the wins it expects, a pessimistic floor of wins, how much the wins
vary, and how much of it rests on real statistics (coverage). An objective orders scores:
*maximise expected wins* compares expected wins (more first), then floors (higher first), then
volatility (lower first); *minimise downside* compares floors first and expected wins second.
Every comparison is in the total order of doubles, so equal scores are bit-for-bit equal and
ranking is a stable sort by this order.

Coverage falls into three confidence tiers, each boundary belonging to the higher tier.
-/

namespace DoublesLineup

/-- What the caller wants most from a lineup. -/
inductive Objective where
  /-- The most expected wins. -/
  | maxExpectedWins
  /-- The highest floor of wins. -/
  | minimizeDownside
  deriving Repr, DecidableEq, BEq, Inhabited

/-- The name of an objective. -/
def Objective.name : Objective → String
  | .maxExpectedWins => "MAX_EXPECTED_WINS"
  | .minimizeDownside => "MINIMIZE_DOWNSIDE"

/-- How far a score can be trusted. -/
inductive ConfidenceTier where
  /-- Coverage below 0.33. -/
  | low
  /-- Coverage from 0.33, below 0.66. -/
  | medium
  /-- Coverage from 0.66. -/
  | high
  deriving Repr, DecidableEq, BEq, Inhabited

/-- The name of a confidence tier. -/
def ConfidenceTier.name : ConfidenceTier → String
  | .low => "LOW"
  | .medium => "MEDIUM"
  | .high => "HIGH"

/-- The tier of a coverage: high from 0.66, medium from 0.33, low below and when not a
number. -/
def confidenceTier (coverage : Float) : ConfidenceTier :=
  if coverage ≥ 0.66 then .high else if coverage ≥ 0.33 then .medium else .low

/-- Mean reliabilities behind a score. -/
structure Coverage where
  /-- Over every estimate used in scoring. -/
  overall : Float
  /-- Over our pairs' own statistics. -/
  game : Float
  /-- Over head-to-head estimates, fallbacks counting zero. -/
  matchup : Float
  deriving Inhabited

/-- The summary of a pairing. -/
structure Score where
  expectedWins : Float
  floorWins : Float
  volatility : Float
  coverage : Coverage
  /-- The number of games the expectation is taken over. -/
  games : Nat
  deriving Inhabited

namespace Score

/-- The tier of the overall coverage. -/
def confidence (s : Score) : ConfidenceTier := confidenceTier s.coverage.overall

/-- Expected wins per game; zero without games. -/
def winProbability (s : Score) : Float :=
  if s.games = 0 then 0.0 else s.expectedWins / natToFloat s.games

/-- Whether `a` comes before (`lt`), with (`eq`) or after (`gt`) `b` under an objective. -/
def compare (objective : Objective) (a b : Score) : Ordering :=
  let byExpected := totalCompare b.expectedWins a.expectedWins
  let byFloor := totalCompare b.floorWins a.floorWins
  let byVolatility := totalCompare a.volatility b.volatility
  match objective with
  | .maxExpectedWins => (byExpected.then byFloor).then byVolatility
  | .minimizeDownside => (byFloor.then byExpected).then byVolatility

end Score

/-- Sorts by preference under an objective; equal scores keep their order. -/
def rankBy {α : Type} (score : α → Score) (objective : Objective) (xs : List α) : List α :=
  xs.mergeSort fun a b => Score.compare objective (score a) (score b) != .gt

end DoublesLineup
