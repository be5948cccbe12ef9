import DoublesLineup.Bundle.Basic
import DoublesLineup.Estimate.Blend
import DoublesLineup.Roster.Pairing
import DoublesLineup.Stats.Sample
import Std.Data.HashMap
/-! # Looking up win estimates

A lookup indexes a bundle's statistics by pair and category, the later entry winning when two
share a key, and knows the genders of the catalog, possibly overridden. Every estimate it gives
is blended and clamped. A head-to-head statistic is preferred; without one the pair's own
statistic is used, and without that the estimate is even odds with no reliability.

When no category is asked for, the one the genders imply is used; when they do not imply one,
the most reliable category on record is taken, the first of mixed, women's and men's among
equals.
-/

namespace DoublesLineup

/-- Where an estimate came from. -/
inductive Source where
  /-- A head-to-head statistic. -/
  | matchup
  /-- Our pair's own statistic. -/
  | candidate
  /-- No statistic: even odds. -/
  | default
  deriving Repr, DecidableEq, BEq, Inhabited

/-- The name of a source. -/
def Source.name : Source → String
  | .matchup => "matchup"
  | .candidate => "candidate"
  | .default => "default"

/-- A win probability, how far it can be trusted, and where it came from. -/
structure WinEstimate where
  probability : Float
  reliability : Float
  source : Source
  deriving Inhabited

namespace WinEstimate

/-- Even odds with no reliability. -/
def neutral : WinEstimate := ⟨neutralProbability, 0.0, .default⟩

/-- The reliability owed to a head-to-head statistic; zero for a fallback. -/
def matchupReliability (e : WinEstimate) : Float :=
  match e.source with
  | .matchup => e.reliability
  | _ => 0.0

end WinEstimate

deriving instance Hashable for MatchType

/-- A bundle's statistics indexed for lookup. -/
structure StatsLookup where
  blender : Blender
  candidates : Std.HashMap (Pair × MatchType) CandidateStat
  matchups : Std.HashMap (Pair × Pair × MatchType) MatchupStat
  genders : Std.HashMap PlayerId Gender
  /-- Own estimates of some pairs in no stated category, worked out in advance. -/
  own : Std.HashMap Pair WinEstimate := {}

namespace StatsLookup

/-- Indexes a bundle: statistics by pair and category, the later entry winning; genders from
the catalog. -/
def ofBundle (bundle : FeatureBundle) (blender : Blender) : StatsLookup where
  blender := blender
  candidates := bundle.candidatePairs.foldl (fun m s =>
    match Pair.make? s.playerA s.playerB with
    | some p => m.insert (p, s.matchType) s
    | none => m) {}
  matchups := bundle.pairMatchups.foldl (fun m s =>
    match Pair.make? s.ourA s.ourB, Pair.make? s.oppA s.oppB with
    | some ours, some theirs => m.insert (ours, theirs, s.matchType) s
    | _, _ => m) {}
  genders := bundle.playersCatalog.foldl (fun m c =>
    match c.gender with
    | some g => m.insert c.playerId g
    | none => m) {}

/-- Adds genders, overriding those known. Estimates worked out in advance are dropped, since
genders decide categories. -/
def withGenders (l : StatsLookup) (genders : List (PlayerId × Gender)) : StatsLookup :=
  { l with genders := genders.foldl (fun m (p, g) => m.insert p g) l.genders, own := {} }

/-- A player's gender, if known. -/
def gender (l : StatsLookup) (player : PlayerId) : Option Gender := l.genders.get? player

/-- The genders of a pair's two players, smaller identifier first. -/
def pairGenders (l : StatsLookup) (p : Pair) : Option Gender × Option Gender :=
  (l.gender p.low, l.gender p.high)

/-- The category a pair's genders imply, if both are known. -/
def composition (l : StatsLookup) (p : Pair) : Option MatchType :=
  MatchType.ofGenders (l.gender p.low) (l.gender p.high)

/-- Whether two pairs could meet: their compositions agree, or one is unknown. -/
def compatible (l : StatsLookup) (ours theirs : Pair) : Bool :=
  match l.composition ours, l.composition theirs with
  | some a, some b => a == b
  | _, _ => true

/-- A blended, clamped estimate from a statistic's fields; the reliability is kept in `[0, 1]`
and is zero when not finite. -/
def estimate (l : StatsLookup) (winRate : Float) (pd : Option Float) (reliability : Float)
    (correlation : Option Float) (source : Source) : Except Fault WinEstimate := do
  let blended ← l.blender.blend winRate pd reliability correlation
  let probability ← l.blender.bounds.clamp blended
  pure ⟨probability, if reliability.isFinite then clampTo reliability 0.0 1.0 else 0.0, source⟩

/-- Of the entries found in category order, the first with the greatest reliability (a later
one replaces the best unless the best's reliability is at least its own). -/
def mostReliable {α : Type} (reliability : α → Float) (found : List α) : Option α :=
  found.foldl (fun best s =>
    match best with
    | some b => if reliability b ≥ reliability s then some b else some s
    | none => some s) none

/-- Our pair's own statistic in a category: the one asked for, else the one its genders imply,
else the most reliable on record. -/
def candidateStat (l : StatsLookup) (p : Pair) (t : Option MatchType) : Option CandidateStat :=
  match t.or (l.composition p) with
  | some t => l.candidates.get? (p, t)
  | none => mostReliable (·.reliability) (MatchType.all.filterMap fun t => l.candidates.get? (p, t))

/-- The estimate of our pair's own statistic, or even odds. -/
def candidate (l : StatsLookup) (p : Pair) (t : Option MatchType) : Except Fault WinEstimate :=
  match l.candidateStat p t with
  | none => pure .neutral
  | some s => l.estimate s.winRateShrunk s.pdWinProbability s.reliability s.signalCorrelation
      .candidate

/-- The category a meeting of two pairs is looked up in: the one asked for, else our pair's
composition, else theirs. -/
def meetingType (l : StatsLookup) (ours theirs : Pair) (t : Option MatchType) : Option MatchType :=
  (t.or (l.composition ours)).or (l.composition theirs)

/-- The head-to-head statistic of two pairs in a category, as `meetingType` chooses it. -/
def matchupStat (l : StatsLookup) (ours theirs : Pair) (t : Option MatchType) :
    Option MatchupStat :=
  match l.meetingType ours theirs t with
  | some t => l.matchups.get? (ours, theirs, t)
  | none => mostReliable (·.reliability)
      (MatchType.all.filterMap fun t => l.matchups.get? (ours, theirs, t))

/-- Our pair against an opponent pair: the head-to-head estimate, else our pair's own. -/
def matchup (l : StatsLookup) (ours theirs : Pair) (t : Option MatchType) :
    Except Fault WinEstimate :=
  match l.matchupStat ours theirs t with
  | none => l.candidate ours (l.meetingType ours theirs t)
  | some s => l.estimate s.winRateShrunk s.pdWinProbability s.reliability s.signalCorrelation
      .matchup

/-- Works out in advance the own estimates of `pairs` in no stated category; a pair whose
estimate is a fault is left to be worked out when asked for. -/
def rememberOwn (l : StatsLookup) (pairs : List Pair) : StatsLookup :=
  { l with own := pairs.foldl (fun m p =>
      match l.candidate p none with
      | .ok e => m.insert p e
      | .error _ => m) l.own }

/-- Our pair's own estimate in no stated category: the one worked out in advance, if any, else
worked out now. Either way it is `l.candidate p none`. -/
def ownEstimate (l : StatsLookup) (p : Pair) : Except Fault WinEstimate :=
  match l.own.get? p with
  | some e => pure e
  | none => l.candidate p none

/-- The mean reliability of the pairing's own statistics. -/
def gameCoverage (l : StatsLookup) (pairing : Pairing) : Except Fault Float := do
  let reliabilities ← pairing.pairs.mapM fun p => do pure (← l.ownEstimate p).reliability
  pure (Sample.mean reliabilities)

end StatsLookup

end DoublesLineup
