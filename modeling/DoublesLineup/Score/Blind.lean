import DoublesLineup.Score.Basic
import DoublesLineup.Estimate.Lookup
/-! # Scoring against hypothesised opponent lineups

In each scenario every one of our pairs is credited with its best win probability against any
compatible opponent pair of that scenario: a best response per pair, so two of our pairs may
both be credited against the same opponent. A scenario's wins are the sum over our pairs. The
expected wins weigh the scenarios by their normalised weights; the floor is the quantile of the
scenarios' wins, unweighted; the volatility is the weighted spread around the expected wins.

Without pairs, or when no scenario holds an opponent pair, every game is even odds.

A scorer that meets many pairings of one roster can work out its pairs' best responses once
(`Scenario.prepare`); a best response looked up is the one that would have been worked out, so
the score is that of `blindScore`.
-/

namespace DoublesLineup

/-- The default quantile for the floor of wins. -/
def defaultDownsideQuantile : Float := 0.2

namespace StatsLookup

/-- Our pair's best estimate against the compatible opponents, the first of equals; even odds
when none is compatible. -/
def bestResponse (l : StatsLookup) (ours : Pair) (opponents : List Pair) :
    Except Fault WinEstimate := do
  let best ← opponents.foldlM (fun (best : Option WinEstimate) theirs => do
    if !l.compatible ours theirs then pure best
    else
      let e ← l.matchup ours theirs none
      match best with
      | some current => pure (if current.probability ≥ e.probability then some current else some e)
      | none => pure (some e)) none
  pure (best.getD .neutral)

end StatsLookup

/-- Our pairs' best responses against the opponent pairs of one scenario, some of them worked
out in advance. -/
structure Responses where
  /-- The scenario's opponent pairs. -/
  opponents : List Pair
  /-- Best responses already worked out, by our pair. -/
  known : Std.HashMap Pair WinEstimate := {}

namespace Responses

/-- Works out in advance the best responses of `pairs`; a pair whose estimate is a fault is left
to be worked out when asked for. -/
def prepare (l : StatsLookup) (opponents pairs : List Pair) : Responses :=
  ⟨opponents, pairs.foldl (fun m p =>
    match l.bestResponse p opponents with
    | .ok e => m.insert p e
    | .error _ => m) {}⟩

/-- Our pair's best response: the one worked out in advance, if any, else worked out now. Either
way it is `l.bestResponse p r.opponents`. -/
def get (l : StatsLookup) (r : Responses) (p : Pair) : Except Fault WinEstimate :=
  match r.known.get? p with
  | some e => pure e
  | none => l.bestResponse p r.opponents

end Responses

/-- A scenario as the scorer takes it: its weight and our pairs' best responses against it. -/
structure ScoringScenario where
  weight : Float
  responses : Responses

/-- A scenario with nothing worked out in advance. -/
def Scenario.forScoring (s : Scenario) : ScoringScenario := ⟨s.weight, ⟨s.pairs, {}⟩⟩

/-- A scenario with the best responses of `pairs` worked out in advance. -/
def Scenario.prepare (l : StatsLookup) (pairs : List Pair) (s : Scenario) : ScoringScenario :=
  ⟨s.weight, Responses.prepare l s.pairs pairs⟩

/-- The score of a pairing against weighted scenarios. -/
def blindScoreOf (l : StatsLookup) (pairing : Pairing) (scenarios : List ScoringScenario)
    (q : Float) : Except Fault Score := do
  let games := pairing.pairs.length
  let neutralWins := neutralProbability * natToFloat games
  let gameCoverage ← l.gameCoverage pairing
  if pairing.pairs.isEmpty || scenarios.all (·.responses.opponents.isEmpty) then
    pure ⟨neutralWins, neutralWins, 0.0, ⟨0.0, gameCoverage, 0.0⟩, games⟩
  else
    let weights := normaliseWeights (scenarios.map (·.weight))
    let estimates ← scenarios.mapM fun s => pairing.pairs.mapM (s.responses.get l)
    let scenarioWins := estimates.map fun es => es.foldl (fun w e => w + e.probability) 0.0
    let all := estimates.flatten
    let expected := Sample.weightedMean scenarioWins weights
    pure ⟨expected, Sample.quantile scenarioWins q,
      Sample.weightedStdev scenarioWins weights expected,
      ⟨Sample.mean (all.map (·.reliability)), gameCoverage,
        Sample.mean (all.map (·.matchupReliability))⟩, games⟩

/-- The score of a pairing against weighted opponent scenarios. -/
def blindScore (pairing : Pairing) (scenarios : List Scenario) (l : StatsLookup) (q : Float) :
    Except Fault Score :=
  blindScoreOf l pairing (scenarios.map Scenario.forScoring) q

end DoublesLineup
