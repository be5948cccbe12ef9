import DoublesLineup.Request.Basic
import DoublesLineup.Bundle.Json
/-! # The JSON form of a request

A request is an object with camel-case keys. Identifiers of divisions, teams and matchups are
UUID strings; the season's year and number are 16-bit integers; counts are unsigned integers.
The mode is `blind` or `known_opponent` and the objective `MAX_EXPECTED_WINS` or
`MINIMIZE_DOWNSIDE`. The opponent's roster maps player identifiers to genders.
-/

namespace DoublesLineup

namespace Decoder

/-- A UUID string. -/
def uuid : Decoder Uuid
  | .str s =>
    match Uuid.read s with
    | .ok u => .ok u
    | .error msg => .error ⟨msg, []⟩
  | j => invalidType j "a formatted UUID string"

/-- A request mode. -/
def mode : Decoder Mode :=
  variant [("blind", .blind), ("known_opponent", .knownOpponent)] ["blind", "known_opponent"]

/-- An objective. -/
def objective : Decoder Objective :=
  variant [("MAX_EXPECTED_WINS", .maxExpectedWins), ("MINIMIZE_DOWNSIDE", .minimizeDownside)]
    ["MAX_EXPECTED_WINS", "MINIMIZE_DOWNSIDE"]

/-- One slot of the opponent's lineup. -/
def opponentSlot : Decoder OpponentSlot := fun j => do
  let r ← Record.read "OpponentSlot" ["matchType", "opponentPlayerAId", "opponentPlayerBId"] j
  pure ⟨← r.need "matchType" matchType, ← r.need "opponentPlayerAId" string,
    ← r.need "opponentPlayerBId" string⟩

/-- The opponent's lineup, round by round. -/
def opponentRounds : Decoder (List OpponentRound) := list (list opponentSlot)

/-- A map from player identifiers to genders, one entry per player in identifier order. -/
def roster : Decoder (List (PlayerId × Gender)) := fun j => do
  pure (sortedMap (← map gender j))

/-- A request. -/
def request : Decoder Request := fun j => do
  let r ← Record.read "Request" ["divisionId", "seasonYear", "seasonNumber", "teamId",
    "oppTeamId", "matchupId", "availablePlayerIds", "mode", "objective", "maxRecommendations",
    "downsideQuantile", "scenarioLimit", "opponentRounds", "opponentRoster"] j
  pure {
    divisionId := (← r.need "divisionId" uuid)
    seasonYear := (← r.need "seasonYear" u16)
    seasonNumber := (← r.need "seasonNumber" u16)
    teamId := (← r.need "teamId" uuid)
    oppTeamId := (← r.need "oppTeamId" uuid)
    matchupId := (← r.optional "matchupId" uuid)
    availablePlayerIds := (← r.need "availablePlayerIds" (list string))
    mode := (← r.withDefault "mode" mode .blind)
    objective := (← r.withDefault "objective" objective .maxExpectedWins)
    maxRecommendations := (← r.withDefault "maxRecommendations" usize 3)
    downsideQuantile := (← r.withDefault "downsideQuantile" float 0.2)
    scenarioLimit := (← r.withDefault "scenarioLimit" usize 12)
    opponentRounds := (← r.optional "opponentRounds" opponentRounds)
    opponentRoster := (← r.optional "opponentRoster" roster) }

end Decoder

namespace Shape

/-- A UUID string. -/
def uuid : Shape :=
  .text "a formatted UUID string" fun s =>
    match Uuid.read s with
    | .ok _ => none
    | .error msg => some msg

/-- One slot of the opponent's lineup. -/
def opponentSlot : Shape :=
  .record "OpponentSlot" [("matchType", matchType, false), ("opponentPlayerAId", .string, false),
    ("opponentPlayerBId", .string, false)]

/-- A request. -/
def request : Shape :=
  .record "Request" [("divisionId", uuid, false), ("seasonYear", .unsigned "u16" (Nat.pow 2 16 - 1), false),
    ("seasonNumber", .unsigned "u16" (Nat.pow 2 16 - 1), false), ("teamId", uuid, false),
    ("oppTeamId", uuid, false), ("matchupId", .option uuid, true),
    ("availablePlayerIds", .seq .string, false),
    ("mode", .choice ["blind", "known_opponent"] ["blind", "known_opponent"], true),
    ("objective", .choice ["MAX_EXPECTED_WINS", "MINIMIZE_DOWNSIDE"]
      ["MAX_EXPECTED_WINS", "MINIMIZE_DOWNSIDE"], true),
    ("maxRecommendations", .unsigned "usize" (Nat.pow 2 64 - 1), true), ("downsideQuantile", .float, true),
    ("scenarioLimit", .unsigned "usize" (Nat.pow 2 64 - 1), true),
    ("opponentRounds", .option (.seq (.seq opponentSlot)), true),
    ("opponentRoster", .option (.map gender), true)]

end Shape

end DoublesLineup
