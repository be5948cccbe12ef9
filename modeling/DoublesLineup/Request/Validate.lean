import DoublesLineup.Request.Basic
/-! # Checking a request

Every broken rule adds one message, so that a caller can report all problems at once. A request
must name 8 to 20 players, an even number of them, each once; ask for 1 to 10 recommendations;
give a downside quantile strictly between 0 and 1 (not-a-number fails); and limit scenarios to
1 to 30. In known-opponent mode it must also give the opponent's rounds and roster: eight rounds
of four slots, each slot of the template's type, naming two different players of the roster
whose genders make that type.
-/

namespace DoublesLineup

/-- The fewest players a request may name. -/
def minPlayers : Nat := 8

/-- The most players a request may name. -/
def maxPlayers : Nat := 20

/-- The most recommendations a request may ask for. -/
def maxRecommendationCount : Nat := 10

/-- The largest scenario limit a request may give. -/
def maxScenarioLimit : Nat := 30

/-- One step of the scan for repeated players: a player already seen adds a message, any other
joins the players seen. -/
def duplicateStep (acc : List PlayerId × List String) (p : PlayerId) :
    List PlayerId × List String :=
  if acc.1.contains p then (acc.1, acc.2 ++ [s!"availablePlayerIds contains duplicate player {p}"])
  else (p :: acc.1, acc.2)

/-- One message for each later occurrence of an identifier already listed. -/
def duplicateMessages (players : List PlayerId) : List String :=
  (players.foldl duplicateStep ([], [])).2

/-- The messages for one slot of the opponent's lineup. -/
def slotMessages (roster : List (PlayerId × Gender)) (round slot : Nat) (s : OpponentSlot) :
    List String :=
  let r := round + 1
  let k := slot + 1
  let expected := slotType round slot
  let typeMsg := if s.matchType != expected then
      [s!"round {r} slot {k} must be {expected.name}, got {s.matchType.name}"] else []
  let repeatMsg := if s.playerA = s.playerB then
      [s!"round {r} slot {k} repeats opponent player {s.playerA}"] else []
  let lookup (p : PlayerId) : Option Gender := (roster.find? (·.1 == p)).map (·.2)
  let missing := [s.playerA, s.playerB].filterMap fun p =>
    match lookup p with
    | some _ => none
    | none => some s!"round {r} slot {k} opponent player {p} is not in opponentRoster"
  let compositionMsg := match lookup s.playerA, lookup s.playerB with
    | some g₁, some g₂ =>
      if MatchType.ofGenders (some g₁) (some g₂) != some s.matchType then
        [s!"round {r} slot {k} pairs {g₁.name} and {g₂.name} players in a {s.matchType.name} slot"]
      else []
    | _, _ => []
  typeMsg ++ repeatMsg ++ missing ++ compositionMsg

/-- The messages for the opponent's lineup in known-opponent mode. -/
def opponentMessages (request : Request) : List String :=
  match request.opponentRounds with
  | none => ["opponentRounds is required in known_opponent mode"]
  | some rounds =>
    match request.opponentRoster with
    | none => ["opponentRoster is required in known_opponent mode"]
    | some roster =>
      let countMsg := if rounds.length != roundCount then
          [s!"opponentRounds must contain {roundCount} rounds, got {rounds.length}"] else []
      let perRound := (rounds.take roundCount).zipIdx.flatMap fun (slots, round) =>
        let sizeMsg := if slots.length != slotCount then
            [s!"opponentRounds[{round + 1}] must contain {slotCount} slots, got {slots.length}"]
          else []
        sizeMsg ++ (slots.take slotCount).zipIdx.flatMap fun (s, slot) =>
          slotMessages roster round slot s
      countMsg ++ perRound

/-- Every rule the request breaks, in the order the rules are listed. -/
def requestViolations (request : Request) : List String :=
  let n := request.availablePlayerIds.length
  (if n < minPlayers ∨ n > maxPlayers then
    [s!"availablePlayerIds must contain between {minPlayers} and {maxPlayers} players, got {n}"]
   else []) ++
  (if n % 2 != 0 then [s!"availablePlayerIds must contain an even number of players, got {n}"]
   else []) ++
  duplicateMessages request.availablePlayerIds ++
  (if request.maxRecommendations < 1 ∨ request.maxRecommendations > maxRecommendationCount then
    [s!"maxRecommendations must be between 1 and {maxRecommendationCount}"] else []) ++
  (if !(request.downsideQuantile > 0.0 && request.downsideQuantile < 1.0) then
    ["downsideQuantile must be strictly between 0 and 1"] else []) ++
  (if request.scenarioLimit < 1 ∨ request.scenarioLimit > maxScenarioLimit then
    [s!"scenarioLimit must be between 1 and {maxScenarioLimit}"] else []) ++
  (if request.mode == .knownOpponent then opponentMessages request else [])

/-- Accepts a request that breaks no rule, or gives every broken rule's message. -/
def validateRequest (request : Request) : Except (List String) Unit :=
  match requestViolations request with
  | [] => pure ()
  | violations => .error violations

end DoublesLineup
