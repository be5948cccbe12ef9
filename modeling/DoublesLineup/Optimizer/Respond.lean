import DoublesLineup.Optimizer.Evaluate
import DoublesLineup.Json.Print
/-! # Answering a request

A response carries the leading recommendations (ranked from 1), how many scenarios were
weighed, what is known of the bundle's age with a warning when it is older than the configured
threshold, and a directory of display names: each of our players under their own identifier,
overridden by any name the catalog gives, for the catalog's other named players too.

Its JSON form uses camel-case keys; optional members that are absent are left out, and a double
that is not finite is written `null`.
-/

namespace DoublesLineup

/-- How far a recommendation can be trusted, overall and by kind of statistic. -/
structure Confidence where
  overall : ConfidenceTier
  game : ConfidenceTier
  matchup : ConfidenceTier
  deriving Inhabited

/-- One recommended pairing. -/
structure Recommendation where
  rank : Nat
  pairingId : String
  pairs : List Pair
  expectedWins : Float
  floorWins : Float
  matchupWinProbability : Float
  volatility : Float
  confidence : Confidence
  schedule : Option Schedule
  /-- How many slots each pair plays; empty without a schedule. -/
  pairUsage : List (Pair × Nat)
  deriving Inhabited

/-- The recommendation of rank `rank` from a scored pairing, named by `H`. -/
def Recommendation.ofScored {η : Type} (H : Hasher η) (rank : Nat) (s : ScoredPairing) :
    Recommendation where
  rank := rank
  pairingId := s.id H
  pairs := s.pairing.pairs
  expectedWins := s.score.expectedWins
  floorWins := s.score.floorWins
  matchupWinProbability := s.score.winProbability
  volatility := s.score.volatility
  confidence := ⟨s.score.confidence, confidenceTier s.score.coverage.game,
    confidenceTier s.score.coverage.matchup⟩
  schedule := s.schedule
  pairUsage := match s.schedule with
    | some schedule => schedule.pairUsage s.pairing
    | none => []

/-- The first `limit` scored pairings as recommendations ranked from 1. -/
def Recommendation.top {η : Type} (H : Hasher η) (ranked : List ScoredPairing) (limit : Nat) :
    List Recommendation :=
  (ranked.take limit).zipIdx.map fun (s, i) => Recommendation.ofScored H (i + 1) s

/-- What the response says about the bundle. -/
structure BundleMetadata where
  generatedAt : Option Timestamp
  maxLastSeenAt : Option Timestamp
  dataStalenessHours : Option Float
  warning : Option String
  deriving Inhabited

/-- The staleness warning for statistics `hours` old against a threshold. -/
def stalenessWarning (hours threshold : Float) : String :=
  s!"statistics are {Decimal.fixed 1 hours} hours old (threshold " ++
    Decimal.Notation.plain.render threshold ++
    " hours); recommendations may not reflect recent results"

/-- The bundle's metadata, with a warning (and a notice) when it is older than the threshold. -/
def BundleMetadata.ofBundle (bundle : FeatureBundle) (threshold : Float) :
    BundleMetadata × List Notice :=
  let (warning, notices) := match bundle.dataStalenessHours with
    | some hours => if hours > threshold then
        (some (stalenessWarning hours threshold), [Notice.staleBundle hours]) else (none, [])
    | none => (none, [])
  (⟨bundle.generatedAt, bundle.maxLastSeenAt, bundle.dataStalenessHours, warning⟩, notices)

/-- Display names: our players under their identifiers, then the catalog's names. -/
def playerDirectory (players : List PlayerId) (bundle : FeatureBundle) :
    List (PlayerId × String) :=
  let named := bundle.playersCatalog.filterMap fun c => c.displayName.map (c.playerId, ·)
  sortedMap (players.map (fun p => (p, p)) ++ named)

/-- The complete answer to a request. -/
structure Response where
  requestId : Uuid
  generatedAt : Timestamp
  objective : Objective
  recommendations : List Recommendation
  scenarioCount : Nat
  bundleMetadata : BundleMetadata
  playerDirectory : List (PlayerId × String)
  deriving Inhabited

/-- Answers a request: the evaluation's leading pairings, and the notices raised. -/
def Optimizer.respond {η γ : Type} (o : Optimizer) (H : Hasher η) (G : Generator γ)
    (request : Request) (bundle : FeatureBundle) (requestId : Uuid) (generatedAt : Timestamp) :
    Except Fault (Response × List Notice) := do
  let evaluation ← o.evaluate H G request bundle
  let recommendations := Recommendation.top H evaluation.ranked request.maxRecommendations
  let (metadata, stale) := BundleMetadata.ofBundle bundle o.config.staleAfterHours
  pure (⟨requestId, generatedAt, request.objective, recommendations, evaluation.scenarioCount,
    metadata, playerDirectory request.availablePlayerIds bundle⟩, evaluation.notices ++ stale)

namespace Response

/-- A double as the response writes it: `null` when not finite. -/
def number (x : Float) : Json := Json.ofFloat x

/-- A pair as its two players. -/
def pairJson (p : Pair) : Json := .obj [("playerAId", .str p.low), ("playerBId", .str p.high)]

/-- The rounds of a schedule, numbered from 1, with their slots numbered from 1. -/
def scheduleJson (s : Schedule) : Json :=
  .arr (s.rounds.zipIdx.map fun (slots, r) => .obj [("round", .ofNat (r + 1)),
    ("slots", .arr (slots.zipIdx.map fun (a, k) => .obj [("slot", .ofNat (k + 1)),
      ("matchType", .str a.matchType.name), ("ourPair", Json.ofOption pairJson a.ours),
      ("opponentPair", Json.ofOption pairJson a.opponent),
      ("winProbability", number a.estimate.probability)]))])

/-- A recommendation in the response's form. -/
def recommendationJson (r : Recommendation) : Json :=
  .obj ([("rank", .ofNat r.rank), ("pairingId", .str r.pairingId),
    ("pairs", .arr (r.pairs.map pairJson)), ("expectedWins", number r.expectedWins),
    ("floorWinsQ20", number r.floorWins), ("matchupWinProbability", number r.matchupWinProbability),
    ("volatility", number r.volatility),
    ("confidence", .obj [("overall", .str r.confidence.overall.name),
      ("game", .str r.confidence.game.name), ("matchup", .str r.confidence.matchup.name)])] ++
    (match r.schedule with
      | some s => [("schedule", scheduleJson s)]
      | none => []) ++
    [("pairUsage", .arr (r.pairUsage.map fun (p, n) =>
      .obj [("pair", pairJson p), ("slots", .ofNat n)]))])

/-- The response in its JSON form. -/
def toJson (r : Response) : Json :=
  .obj [("requestId", .str r.requestId.render), ("generatedAt", .str r.generatedAt.render),
    ("objective", .str r.objective.name),
    ("recommendations", .arr (r.recommendations.map recommendationJson)),
    ("scenarioSummary", .obj [("scenarioCount", .ofNat r.scenarioCount)]),
    ("bundleMetadata", .obj ([
      ("generatedAt", Json.ofOption (fun t => .str t.render) r.bundleMetadata.generatedAt),
      ("maxLastSeenAt", Json.ofOption (fun t => .str t.render) r.bundleMetadata.maxLastSeenAt),
      ("dataStalenessHours", Json.ofOption number r.bundleMetadata.dataStalenessHours)] ++
      (match r.bundleMetadata.warning with
        | some w => [("warning", .str w)]
        | none => []))),
    ("playerDirectory", .obj (r.playerDirectory.map fun (p, n) => (p, .str n)))]

end Response

end DoublesLineup
