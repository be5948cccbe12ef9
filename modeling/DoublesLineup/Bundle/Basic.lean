import DoublesLineup.Roster.Pair
import DoublesLineup.Time.Timestamp
/-! # Feature bundles

A feature bundle is what the data layer knows before a match: per-category statistics of our
candidate pairs, head-to-head statistics of our pairs against opponent pairs, hypothesised
opponent lineups with their probabilities, a catalog of players, and how old the data is. Every
list may be empty. An entry whose two players are the same is no pair and is ignored.
-/

namespace DoublesLineup

/-- The statistics of one of our pairs in one category of game. -/
structure CandidateStat where
  playerA : PlayerId
  playerB : PlayerId
  matchType : MatchType
  /-- The historical win rate, shrunk toward even. -/
  winRateShrunk : Float
  /-- The win probability implied by point differentials. -/
  pdWinProbability : Option Float := none
  /-- How far the statistics can be trusted, nominally in `[0, 1]`. -/
  reliability : Float := 0.0
  /-- The historical correlation of the two signals. -/
  signalCorrelation : Option Float := none
  deriving Inhabited

/-- The statistics of one of our pairs against one opponent pair in one category. -/
structure MatchupStat where
  ourA : PlayerId
  ourB : PlayerId
  oppA : PlayerId
  oppB : PlayerId
  matchType : MatchType
  winRateShrunk : Float
  pdWinProbability : Option Float := none
  reliability : Float := 0.0
  signalCorrelation : Option Float := none
  deriving Inhabited

/-- A hypothesised opponent lineup and its probability. -/
structure OpponentScenario where
  scenarioId : Option String := none
  probability : Option Float := none
  /-- The opponent pairs as two identifiers each. -/
  pairs : List (PlayerId × PlayerId) := []
  deriving Inhabited

/-- A catalog entry. -/
structure CatalogPlayer where
  playerId : PlayerId
  displayName : Option String := none
  gender : Option Gender := none
  deriving Inhabited

/-- Everything the data layer supplies for one request. -/
structure FeatureBundle where
  candidatePairs : List CandidateStat := []
  opponentScenarios : List OpponentScenario := []
  pairMatchups : List MatchupStat := []
  playersCatalog : List CatalogPlayer := []
  generatedAt : Option Timestamp := none
  maxLastSeenAt : Option Timestamp := none
  /-- The age of the statistics in hours. -/
  dataStalenessHours : Option Float := none
  deriving Inhabited

/-- An opponent lineup ready for scoring: its weight and its pairs. -/
structure Scenario where
  weight : Float
  pairs : List Pair
  deriving Inhabited

namespace FeatureBundle

/-- The first `limit` scenarios: a missing probability weighs zero, and opponent entries that
repeat a player are dropped. Weights are normalised only when scored. -/
def scenarios (b : FeatureBundle) (limit : Nat) : List Scenario :=
  (b.opponentScenarios.take limit).map fun s =>
    ⟨s.probability.getD 0.0, s.pairs.filterMap fun (x, y) => Pair.make? x y⟩

end FeatureBundle

end DoublesLineup
