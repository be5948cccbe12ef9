import DoublesLineup.Search.Climb
import DoublesLineup.Score.Blind
import DoublesLineup.Request.Basic
import DoublesLineup.Roster.Matching
import DoublesLineup.Bundle.Basic
/-! # Evaluating a request

The optimiser scores every pairing of the request's roster (or, for a roster larger than the
configured limit, the pairings a search visits) and ranks them by the request's objective.
Repeated players are dropped, keeping first occurrences, and a roster that cannot be paired
yields nothing. Blind requests are scored against the bundle's first scenarios, known-opponent
requests against the opponent's rounds. The estimates of the roster's pairs are worked out
once, before any pairing is scored. What went amiss along the way is reported as notices
rather than failures.
-/

namespace DoublesLineup

/-- A warning raised while answering a request. -/
inductive Notice where
  /-- Repeated players were dropped from the roster of a team. -/
  | droppedRepeats (count : Nat) (team : Uuid)
  /-- No scenario named an opponent pair, so every game was scored at even odds. -/
  | noScenarios (team : Uuid)
  /-- The bundle's statistics are older than the threshold. -/
  | staleBundle (hours : Float)
  deriving Inhabited

/-- The text of a notice. -/
def Notice.message : Notice → String
  | .droppedRepeats n team =>
    s!"dropped {n} repeated player IDs from the roster of team {team.render}"
  | .noScenarios team =>
    s!"no opponent scenarios for team {team.render}; scoring against neutral odds"
  | .staleBundle hours => s!"feature bundle is {Decimal.fixed 1 hours} hours old"

/-- A validated configuration and the blender it implies for scoring. -/
structure Optimizer where
  config : Config
  blender : Blender
  deriving Inhabited

/-- How the pairings were found. -/
inductive Strategy where
  /-- Every pairing was scored. -/
  | exhaustive
  /-- A search visited some pairings. -/
  | search
  deriving Repr, DecidableEq, BEq, Inhabited

/-- The name of a strategy. -/
def Strategy.name : Strategy → String
  | .exhaustive => "Exhaustive"
  | .search => "Search"

/-- The ranked outcome of one request. -/
structure Evaluation where
  ranked : List ScoredPairing
  strategy : Strategy
  scenarioCount : Nat
  searchStats : Option SearchStats
  notices : List Notice
  deriving Inhabited

/-- The players in order, each at its first occurrence. -/
def distinctPlayers (players : List PlayerId) : List PlayerId :=
  (players.foldl (fun (seen, kept) p =>
    if seen.contains p then (seen, kept) else (seen.insert p, p :: kept))
    ((∅ : Std.HashSet PlayerId), ([] : List PlayerId))).2.reverse

namespace Optimizer

/-- The optimiser of a configuration that passes its checks. -/
def ofConfig (c : Config) : Except String Optimizer := do
  c.validate
  pure ⟨c, c.scoringBlender⟩

/-- The lookup a request is scored with: the bundle's statistics, with the opponents' genders
when the request gives them. -/
def lookupFor (o : Optimizer) (request : Request) (bundle : FeatureBundle) : StatsLookup :=
  let base := StatsLookup.ofBundle bundle o.blender
  match request.opponentRoster with
  | some roster => base.withGenders roster
  | none => base

/-- Enumeration up to the configured number of players, search beyond. -/
def strategyFor (o : Optimizer) (players : Nat) : Strategy :=
  if players ≤ o.config.maxExhaustivePlayers then .exhaustive else .search

/-- What scoring the pairings of a request needs, worked out once for the roster's pairs: the
lookup with their own estimates, and the scenarios or the match's slots with their estimates. -/
inductive Preparation where
  /-- Blind: the scenarios with our pairs' best responses. -/
  | blind (l : StatsLookup) (scenarios : List ScoringScenario)
  /-- Known opponent: the match with our pairs' estimates in its slots. -/
  | known (l : StatsLookup) (m : MatchView)

/-- Works out the estimates of `pairs` (the roster's pairs) for a request's mode. -/
def prepare (request : Request) (scenarios : List Scenario) (l : StatsLookup) (pairs : List Pair) :
    Preparation :=
  let l := l.rememberOwn pairs
  match request.mode with
  | .blind => .blind l (scenarios.map (·.prepare l pairs))
  | .knownOpponent =>
    .known l ((MatchView.ofRounds (request.opponentRounds.getD [])).prepare l pairs)

/-- Scores a pairing of a request. Its score is that of `blindScore` or `knownScore`: what was
worked out in advance is what those would work out. -/
def scoreWith (o : Optimizer) (request : Request) : Preparation → Pairing →
    Except Fault ScoredPairing
  | .blind l scenarios, pairing => do
    let score ← blindScoreOf l pairing scenarios request.downsideQuantile
    pure ⟨pairing, score, none⟩
  | .known l m, pairing => do
    let (score, schedule) ← knownScoreOf l pairing m request.downsideQuantile
      o.config.knownAggregation
    pure ⟨pairing, score, some schedule⟩

/-- Scores and ranks the pairings of the request's roster; a search names pairings with `H` and
draws from `G`. -/
def evaluate {η γ : Type} (o : Optimizer) (H : Hasher η) (G : Generator γ) (request : Request)
    (bundle : FeatureBundle) : Except Fault Evaluation := do
  let players := distinctPlayers request.availablePlayerIds
  let dropped := request.availablePlayerIds.length - players.length
  let notices := if dropped ≠ 0 then [Notice.droppedRepeats dropped request.teamId] else []
  let l := o.lookupFor request bundle
  let scenarios := match request.mode with
    | .blind => bundle.scenarios request.scenarioLimit
    | .knownOpponent => []
  let notices := if request.mode == .blind && scenarios.all (·.pairs.isEmpty) then
      notices ++ [Notice.noScenarios request.teamId] else notices
  let preparation := prepare request scenarios l (rosterPairs players)
  let score := o.scoreWith request preparation
  match o.strategyFor players.length with
  | .exhaustive =>
    let scored ← (← enumerate players).mapM score
    pure ⟨rankBy (·.score) request.objective scored, .exhaustive, scenarios.length, none, notices⟩
  | .search =>
    let (ranked, stats) ← searchPairings H G players o.config.search request.objective score
    pure ⟨ranked, .search, scenarios.length, some stats, notices⟩

end Optimizer

end DoublesLineup
