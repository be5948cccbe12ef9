import DoublesLineup.Bundle.Basic
import DoublesLineup.Json.Decode
import DoublesLineup.Json.Shape
/-! # The JSON form of a feature bundle

A bundle is an object with snake-case keys; each of its lists may be left out. Genders are
written `female` or `male`, or `F`, `f`, `M`, `m`; match types `mixed`, `female` or `male`.
Instants are strings in RFC 3339 form. The shapes here describe the same documents for reading
them from text.
-/

namespace DoublesLineup

namespace Decoder

/-- A gender in any of its spellings. -/
def gender : Decoder Gender :=
  variant [("female", .female), ("F", .female), ("f", .female), ("male", .male), ("M", .male),
    ("m", .male)] ["F", "f", "female", "M", "m", "male"]

/-- A match type. -/
def matchType : Decoder MatchType :=
  variant [("mixed", .mixed), ("female", .female), ("male", .male)] ["mixed", "female", "male"]

/-- An instant in RFC 3339 form. -/
def timestamp : Decoder Timestamp
  | .str s =>
    match Timestamp.read s with
    | .ok t => .ok t
    | .error f => .error ⟨f.message, []⟩
  | j => invalidType j "an RFC 3339 formatted date and time string"

/-- The statistics of one of our pairs. -/
def candidateStat : Decoder CandidateStat := fun j => do
  let r ← Record.read "CandidatePairStat" ["player_a_id", "player_b_id", "match_type",
    "win_rate_shrunk", "pd_win_probability", "reliability", "signal_correlation"] j
  pure {
    playerA := (← r.need "player_a_id" string)
    playerB := (← r.need "player_b_id" string)
    matchType := (← r.need "match_type" matchType)
    winRateShrunk := (← r.need "win_rate_shrunk" float)
    pdWinProbability := (← r.optional "pd_win_probability" float)
    reliability := (← r.withDefault "reliability" float 0.0)
    signalCorrelation := (← r.optional "signal_correlation" float) }

/-- A head-to-head statistic. -/
def matchupStat : Decoder MatchupStat := fun j => do
  let r ← Record.read "PairMatchup" ["our_player_a_id", "our_player_b_id", "opp_player_a_id",
    "opp_player_b_id", "match_type", "win_rate_shrunk", "pd_win_probability", "reliability",
    "signal_correlation"] j
  pure {
    ourA := (← r.need "our_player_a_id" string)
    ourB := (← r.need "our_player_b_id" string)
    oppA := (← r.need "opp_player_a_id" string)
    oppB := (← r.need "opp_player_b_id" string)
    matchType := (← r.need "match_type" matchType)
    winRateShrunk := (← r.need "win_rate_shrunk" float)
    pdWinProbability := (← r.optional "pd_win_probability" float)
    reliability := (← r.withDefault "reliability" float 0.0)
    signalCorrelation := (← r.optional "signal_correlation" float) }

/-- Two players' identifiers. -/
def pairIds : Decoder (PlayerId × PlayerId) := fun j => do
  let r ← Record.read "PairIds" ["player_a_id", "player_b_id"] j
  pure ((← r.need "player_a_id" string), (← r.need "player_b_id" string))

/-- A hypothesised opponent lineup. -/
def opponentScenario : Decoder OpponentScenario := fun j => do
  let r ← Record.read "OpponentScenario" ["scenario_id", "probability", "pairs"] j
  pure {
    scenarioId := (← r.optional "scenario_id" string)
    probability := (← r.optional "probability" float)
    pairs := (← r.withDefault "pairs" (list pairIds) []) }

/-- A catalog entry. -/
def catalogPlayer : Decoder CatalogPlayer := fun j => do
  let r ← Record.read "CatalogPlayer" ["player_id", "display_name", "gender"] j
  pure {
    playerId := (← r.need "player_id" string)
    displayName := (← r.optional "display_name" string)
    gender := (← r.optional "gender" gender) }

/-- A feature bundle. -/
def featureBundle : Decoder FeatureBundle := fun j => do
  let r ← Record.read "FeatureBundle" ["candidate_pairs", "opponent_scenarios", "pair_matchups",
    "players_catalog", "generated_at", "max_last_seen_at", "data_staleness_hours"] j
  pure {
    candidatePairs := (← r.withDefault "candidate_pairs" (list candidateStat) [])
    opponentScenarios := (← r.withDefault "opponent_scenarios" (list opponentScenario) [])
    pairMatchups := (← r.withDefault "pair_matchups" (list matchupStat) [])
    playersCatalog := (← r.withDefault "players_catalog" (list catalogPlayer) [])
    generatedAt := (← r.optional "generated_at" timestamp)
    maxLastSeenAt := (← r.optional "max_last_seen_at" timestamp)
    dataStalenessHours := (← r.optional "data_staleness_hours" float) }

end Decoder

namespace Shape

/-- A gender in any of its spellings. -/
def gender : Shape :=
  .choice ["F", "f", "female", "M", "m", "male"] ["female", "F", "f", "male", "M", "m"]

/-- A match type. -/
def matchType : Shape := .choice ["mixed", "female", "male"] ["mixed", "female", "male"]

/-- An instant in RFC 3339 form. -/
def timestamp : Shape :=
  .text "an RFC 3339 formatted date and time string" fun s =>
    match Timestamp.read s with
    | .ok _ => none
    | .error f => some f.message

/-- The statistics shared by our pairs and head-to-head records. -/
def statFields : List (String × Shape × Bool) :=
  [("match_type", matchType, false), ("win_rate_shrunk", .float, false),
    ("pd_win_probability", .option .float, true), ("reliability", .float, true),
    ("signal_correlation", .option .float, true)]

/-- The statistics of one of our pairs. -/
def candidateStat : Shape :=
  .record "CandidatePairStat" ([("player_a_id", .string, false), ("player_b_id", .string, false)] ++
    statFields)

/-- A head-to-head statistic. -/
def matchupStat : Shape :=
  .record "PairMatchup" ([("our_player_a_id", .string, false), ("our_player_b_id", .string, false),
    ("opp_player_a_id", .string, false), ("opp_player_b_id", .string, false)] ++ statFields)

/-- A hypothesised opponent lineup. -/
def opponentScenario : Shape :=
  .record "OpponentScenario" [("scenario_id", .option .string, true),
    ("probability", .option .float, true),
    ("pairs", .seq (.record "PairIds" [("player_a_id", .string, false),
      ("player_b_id", .string, false)]), true)]

/-- A catalog entry. -/
def catalogPlayer : Shape :=
  .record "CatalogPlayer" [("player_id", .string, false), ("display_name", .option .string, true),
    ("gender", .option gender, true)]

/-- A feature bundle. -/
def featureBundle : Shape :=
  .record "FeatureBundle" [("candidate_pairs", .seq candidateStat, true),
    ("opponent_scenarios", .seq opponentScenario, true), ("pair_matchups", .seq matchupStat, true),
    ("players_catalog", .seq catalogPlayer, true), ("generated_at", .option timestamp, true),
    ("max_last_seen_at", .option timestamp, true), ("data_staleness_hours", .option .float, true)]

end Shape

end DoublesLineup
