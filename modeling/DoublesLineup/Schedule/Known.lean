import DoublesLineup.Schedule.Template
import DoublesLineup.Score.Basic
import DoublesLineup.Estimate.Lookup
/-! # Scheduling against a known opponent

Each round is filled greedily: of all admissible combinations of a slot and one of our pairs,
the one with the highest win probability is fixed first (the earlier slot, then the earlier
pair, among equals), then the best of what remains, until no slot or pair is free. A slot left
without a pair is a forfeit with no chance of winning.

The score sums the slots' probabilities. Its floor and volatility are taken over rounds or over
slots (the aggregation) and scaled to the whole match: the unit quantile times the number of
units, the unit spread times the square root of that number.

A scheduler that meets many pairings of one roster can work out each pair's estimates in every
slot once (`MatchView.prepare`); an estimate looked up is the one that would have been worked
out, so the schedule is that of `buildSchedule`.
-/

namespace DoublesLineup

/-- One slot of our schedule. -/
structure SlotAssignment where
  matchType : MatchType
  opponent : Option Pair
  /-- Our pair, absent when the slot is forfeit. -/
  ours : Option Pair
  estimate : WinEstimate
  deriving Inhabited

/-- A forfeit slot: no pair of ours and no chance of winning. -/
def SlotAssignment.forfeit (t : MatchType) (opponent : Option Pair) : SlotAssignment :=
  ⟨t, opponent, none, ⟨0.0, 0.0, .default⟩⟩

/-- Our assignments for every round and slot. -/
structure Schedule where
  rounds : List (List SlotAssignment)
  deriving Inhabited

namespace Schedule

/-- All slots, round by round. -/
def slots (s : Schedule) : List SlotAssignment := s.rounds.flatten

/-- The summed win probability of each round. -/
def roundWins (s : Schedule) : List Float :=
  s.rounds.map fun r => Sample.sum (r.map (·.estimate.probability))

/-- The win probability of each slot. -/
def slotWins (s : Schedule) : List Float := s.slots.map (·.estimate.probability)

/-- The number of slots with a pair of ours. -/
def filled (s : Schedule) : Nat := (s.slots.filter (·.ours.isSome)).length

/-- How many slots each of the pairing's pairs plays, in pairing order. -/
def pairUsage (s : Schedule) (pairing : Pairing) : List (Pair × Nat) :=
  pairing.pairs.map fun p => (p, (s.slots.filter (·.ours == some p)).length)

end Schedule

/-- The unit over which the floor and the volatility of a known-opponent score are taken. -/
inductive Aggregation where
  /-- The units are the rounds. -/
  | perRound
  /-- The units are the slots. -/
  | perSlot
  deriving Repr, DecidableEq, BEq, Inhabited

/-- The name of an aggregation. -/
def Aggregation.name : Aggregation → String
  | .perRound => "per_round"
  | .perSlot => "per_slot"

/-- The floor and the volatility of a schedule on the scale of the whole match. -/
def Aggregation.summarise (a : Aggregation) (s : Schedule) (q : Float) : Float × Float :=
  let units := match a with
    | .perRound => s.roundWins
    | .perSlot => s.slotWins
  let count := natToFloat units.length
  (Sample.quantile units q * count, Sample.stdev units * count.sqrt)

/-- One slot of the match as the scheduler sees it: its category and the opponent pair, if
known. -/
structure SlotView where
  matchType : MatchType
  opponent : Option Pair

/-- The estimate of our pair in the slot, if its category admits the pair: against the slot's
opponent if there is one, else the pair's own. -/
def SlotView.estimate (l : StatsLookup) (v : SlotView) (p : Pair) :
    Except Fault (Option WinEstimate) :=
  if v.matchType.admits (l.gender p.low) (l.gender p.high) then
    match v.opponent with
    | some theirs => some <$> l.matchup p theirs (some v.matchType)
    | none => some <$> l.candidate p (some v.matchType)
  else pure none

/-- One of our pairs' estimates in every slot of the match, round by round and slot by slot:
`SlotView.estimate` for each slot. -/
abbrev SlotProfile := Array (Array (Option WinEstimate))

/-- The match as the scheduler sees it: its slots round by round, and the profiles of some of
our pairs worked out in advance. -/
structure MatchView where
  rounds : List (List SlotView)
  profiles : Std.HashMap Pair SlotProfile := {}

namespace MatchView

/-- The match against the opponent's lineup, with nothing worked out in advance. -/
def ofRounds (rounds : List OpponentRound) : MatchView where
  rounds := (List.range roundCount).map fun round =>
    (List.range slotCount).map fun slot => ⟨slotType round slot, opponentAt rounds round slot⟩

/-- Works out in advance the profiles of `pairs`; a pair with a fault in some slot is left to be
worked out when asked for. -/
def prepare (l : StatsLookup) (pairs : List Pair) (m : MatchView) : MatchView :=
  { m with profiles := pairs.foldl (fun acc p =>
      match m.rounds.mapM fun slots => slots.mapM (·.estimate l p) with
      | .ok rows => acc.insert p (rows.map List.toArray).toArray
      | .error _ => acc) m.profiles }

end MatchView

/-- Our pair's estimate in slot `slot` of round `round`: from its profile when that was worked
out in advance, else worked out now. Either way it is `v.estimate l p`. -/
def slotEstimate (l : StatsLookup) (v : SlotView) (profile : Option SlotProfile)
    (round slot : Nat) (p : Pair) : Except Fault (Option WinEstimate) :=
  match profile.bind fun rows => rows[round]?.bind (·[slot]?) with
  | some e => pure e
  | none => v.estimate l p

/-- A slot, one of our pairs, and the estimate of that pair in that slot. -/
structure Candidate where
  slot : Nat
  pairIndex : Nat
  estimate : WinEstimate

/-- Whether the candidate `a` is fixed before `b`: higher probability first in the total order,
then the earlier slot, then the earlier pair. -/
def Candidate.before (a b : Candidate) : Bool :=
  ((totalCompare b.estimate.probability a.estimate.probability).then
    ((compare a.slot b.slot).then (compare a.pairIndex b.pairIndex))) != .gt

/-- Adds to `acc` (latest first) the candidates of one slot: each of our pairs, from position
`i` on, that the slot's category admits. -/
def slotCandidates (l : StatsLookup) (v : SlotView) (round slot : Nat) :
    List (Pair × Option SlotProfile) → Nat → List Candidate → Except Fault (List Candidate)
  | [], _, acc => pure acc
  | (p, profile) :: rest, i, acc => do
    match ← slotEstimate l v profile round slot p with
    | some e => slotCandidates l v round slot rest (i + 1) (⟨slot, i, e⟩ :: acc)
    | none => slotCandidates l v round slot rest (i + 1) acc

/-- Adds to `acc` (latest first) the candidates of the slots from position `slot` on. -/
def slotsCandidates (l : StatsLookup) (ours : List (Pair × Option SlotProfile)) (round : Nat) :
    List SlotView → Nat → List Candidate → Except Fault (List Candidate)
  | [], _, acc => pure acc
  | v :: rest, slot, acc => do
    slotsCandidates l ours round rest (slot + 1) (← slotCandidates l v round slot ours 0 acc)

/-- The admissible candidates of a round: each slot with each of our pairs its category admits,
slot by slot and in pairing order. -/
def roundCandidates (l : StatsLookup) (ours : List (Pair × Option SlotProfile)) (round : Nat)
    (slots : List SlotView) : Except Fault (List Candidate) := do
  pure (← slotsCandidates l ours round slots 0 []).reverse

/-- Fixes one candidate unless its slot or its pair is already taken. The slot is a position in
the round's assignments and the pair one in the pairing; a position past either end is a
fault. -/
def assignStep (pairing : Pairing) (acc : List SlotAssignment × List Nat × List Nat)
    (c : Candidate) : Except Fault (List SlotAssignment × List Nat × List Nat) := do
  let (slots, slotTaken, pairTaken) := acc
  if c.slot < slots.length then
    if slotTaken.contains c.slot then pure acc
    else
      let ours ← pairing.pairAt c.pairIndex
      if pairTaken.contains c.pairIndex then pure acc
      else
        pure (slots.modify c.slot fun a => { a with ours := some ours, estimate := c.estimate },
          c.slot :: slotTaken, c.pairIndex :: pairTaken)
  else throw (.indexOutOfBounds slots.length c.slot)

/-- Fixes candidates in order, skipping any whose slot or pair is already taken. -/
def assignGreedy (pairing : Pairing) (candidates : List Candidate) (start : List SlotAssignment) :
    Except Fault (List SlotAssignment) := do
  let (assigned, _, _) ← candidates.foldlM (assignStep pairing) (start, [], [])
  pure assigned

/-- Our assignments for one round. -/
def scheduleRound (l : StatsLookup) (pairing : Pairing) (ours : List (Pair × Option SlotProfile))
    (round : Nat) (slots : List SlotView) : Except Fault (List SlotAssignment) := do
  let candidates ← roundCandidates l ours round slots
  let ordered := candidates.mergeSort Candidate.before
  let start := slots.map fun v => SlotAssignment.forfeit v.matchType v.opponent
  assignGreedy pairing ordered start

/-- Our schedule for the whole match. -/
def scheduleOf (l : StatsLookup) (pairing : Pairing) (m : MatchView) : Except Fault Schedule := do
  let ours := pairing.pairs.map fun p => (p, m.profiles.get? p)
  pure ⟨← m.rounds.zipIdx.mapM fun (slots, round) => scheduleRound l pairing ours round slots⟩

/-- Our schedule for the whole match against the opponent's lineup. -/
def buildSchedule (l : StatsLookup) (pairing : Pairing) (rounds : List OpponentRound) :
    Except Fault Schedule :=
  scheduleOf l pairing (MatchView.ofRounds rounds)

/-- The score of a pairing against the match, and its schedule. -/
def knownScoreOf (l : StatsLookup) (pairing : Pairing) (m : MatchView) (q : Float)
    (aggregation : Aggregation) : Except Fault (Score × Schedule) := do
  let s ← scheduleOf l pairing m
  let (floorWins, volatility) := aggregation.summarise s q
  let gameCoverage ← l.gameCoverage pairing
  let score : Score := ⟨Sample.sum s.slotWins, floorWins, volatility,
    ⟨Sample.mean (s.slots.map (·.estimate.reliability)), gameCoverage,
      Sample.mean (s.slots.map (·.estimate.matchupReliability))⟩, s.filled⟩
  pure (score, s)

/-- The score of a pairing against a known opponent, and its schedule. -/
def knownScore (pairing : Pairing) (rounds : List OpponentRound) (l : StatsLookup) (q : Float)
    (aggregation : Aggregation) : Except Fault (Score × Schedule) :=
  knownScoreOf l pairing (MatchView.ofRounds rounds) q aggregation

end DoublesLineup
