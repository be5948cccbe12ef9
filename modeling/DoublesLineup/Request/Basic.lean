import DoublesLineup.Ident.Uuid
import DoublesLineup.Schedule.Template
import DoublesLineup.Score.Basic
/-! # Recommendation requests

A request names a team's available players and asks for the best ways to pair them, either
blind (against hypothesised opponent lineups) or against a known opponent lineup given round
by round, under an objective.
-/

namespace DoublesLineup

/-- Whether the opponent's lineup is hypothesised or known. -/
inductive Mode where
  /-- Score against the bundle's opponent scenarios. -/
  | blind
  /-- Score against the opponent's lineup given in the request. -/
  | knownOpponent
  deriving Repr, DecidableEq, BEq, Inhabited

/-- The name of a mode. -/
def Mode.name : Mode → String
  | .blind => "blind"
  | .knownOpponent => "known_opponent"

/-- A request for lineup recommendations. -/
structure Request where
  divisionId : Uuid
  seasonYear : Nat
  seasonNumber : Nat
  teamId : Uuid
  oppTeamId : Uuid
  matchupId : Option Uuid := none
  availablePlayerIds : List PlayerId
  mode : Mode := .blind
  objective : Objective := .maxExpectedWins
  maxRecommendations : Nat := 3
  downsideQuantile : Float := 0.2
  scenarioLimit : Nat := 12
  opponentRounds : Option (List OpponentRound) := none
  /-- The opponents' genders, one entry per player in identifier order. -/
  opponentRoster : Option (List (PlayerId × Gender)) := none
  deriving Inhabited

/-- A map from its entries, one per key, the later entry winning, in key order. -/
def sortedMap {α : Type} (entries : List (String × α)) : List (String × α) :=
  let last := entries.reverse.foldl (fun (acc : List (String × α)) (k, v) =>
    if acc.any (·.1 == k) then acc else (k, v) :: acc) []
  last.mergeSort fun a b => decide (a.1 ≤ b.1)

end DoublesLineup
