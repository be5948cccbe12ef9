import DoublesLineup.Console.Table
import DoublesLineup.Optimizer.Respond
import DoublesLineup.Estimate.Calibration
/-! # Tables of recommendations, schedules and calibration

Players are shown by name where the directory has one and by identifier otherwise; a pair is
its two players joined by a slash. Figures have three decimals, calibration scores six.
-/

namespace DoublesLineup

/-- Names of players by identifier, in identifier order. -/
abbrev Directory := List (PlayerId × String)

namespace Directory

/-- A player's name, or the identifier when the directory has none. -/
def name (d : Directory) (player : PlayerId) : String :=
  match d.find? (·.1 == player) with
  | some (_, n) => n
  | none => player

/-- A pair as its players' names. -/
def pairNames (d : Directory) (p : Pair) : String := d.name p.low ++ " / " ++ d.name p.high

end Directory

namespace Table

/-- A column of least width `w` with alignment `a`. -/
def column (w : Nat) (a : Align) : Column := ⟨w, a⟩

/-- A header row: open, and set off by a double rule. -/
def headerRow (cells : List String) : Row := { cells, header := true, ruled := false }

end Table

open Table in
/-- One line per recommendation: rank, pairing, pairs, figures and confidence tiers. -/
def tabulateRecommendations (recommendations : List Recommendation) (d : Directory) : Table :=
  { columns := [column 5 .centred, column 18 .left, column 30 .left, column 10 .right,
      column 10 .right, column 10 .right, column 10 .right, column 8 .centred, column 8 .centred,
      column 8 .centred]
    rows := headerRow ["Rank", "Pairing", "Pairs", "Expected", "Floor", "Win prob", "Volatility",
      "Overall", "Game", "Matchup"] ::
      recommendations.map fun r =>
        { cells := [toString r.rank, r.pairingId, ", ".intercalate (r.pairs.map d.pairNames),
            Decimal.fixed 3 r.expectedWins, Decimal.fixed 3 r.floorWins,
            Decimal.fixed 3 r.matchupWinProbability, Decimal.fixed 3 r.volatility,
            r.confidence.overall.name, r.confidence.game.name, r.confidence.matchup.name]
          ruled := false } }

open Table in
/-- One line per slot, rounds in order; a round's number heads its first slot, and its last
slot is an open row that closes the round. -/
def tabulateSchedule (s : Schedule) (d : Directory) : Table :=
  { columns := [column 6 .centred, column 5 .centred, column 7 .left, column 24 .left,
      column 24 .left, column 10 .right]
    rows := headerRow ["Round", "Slot", "Type", "Our pair", "Opponent", "Win prob"] ::
      (s.rounds.zipIdx.map fun (slots, r) =>
        slots.zipIdx.map fun (a, k) =>
          { cells := [if k = 0 then toString (r + 1) else "", toString (k + 1), a.matchType.name,
              (a.ours.map d.pairNames).getD "forfeit", (a.opponent.map d.pairNames).getD "-",
              Decimal.fixed 3 a.estimate.probability]
            ruled := k + 1 != slots.length }).flatten }

open Table in
/-- The scores of the win rate alone and of the blend. -/
def tabulateCalibration (r : CalibrationReport) : Table :=
  { columns := [column 10 .left, column 12 .right, column 12 .right]
    rows := headerRow ["Estimate", "Brier", "Log-loss"] ::
      [("Base", r.base), ("Blended", r.blended)].map fun (label, m) =>
        { cells := [label, Decimal.fixed 6 m.brierScore, Decimal.fixed 6 m.logLoss] } }

end DoublesLineup
