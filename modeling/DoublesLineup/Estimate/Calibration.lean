import DoublesLineup.Estimate.Blend
import DoublesLineup.Stats.Sample
/-! # Judging estimates against held-out outcomes

A held-out row is one past game: the signals known before it and whether our pair won. The
Brier score of a list of predictions is the mean squared error against the outcomes (one for a
win, zero for a loss); the log loss is the mean negative log-likelihood, each prediction first
clamped into the bounds so that a confident miss stays finite. Both are absent when there is
nothing to score or the lengths differ. A report scores the win rate on its own and the blended
estimate, so that the improvement from blending can be read off. The natural logarithm of
doubles is a parameter `ln`, which the program takes from the platform's mathematics library.
-/

namespace DoublesLineup

/-- One past game with the signals known before it. -/
structure HoldoutRow where
  /-- The pair's shrunk historical win rate. -/
  winRateShrunk : Float
  /-- The win probability implied by point differentials, if any. -/
  pdWinProbability : Option Float := none
  /-- The sample reliability of the pair. -/
  reliability : Float := 0.0
  /-- The historical correlation of the two signals, if known. -/
  signalCorrelation : Option Float := none
  /-- Whether our pair won. -/
  won : Bool
  deriving Inhabited

/-- One for a win, zero for a loss. -/
def indicator (won : Bool) : Float := if won then 1.0 else 0.0

/-- The mean squared error of the predictions against the outcomes. -/
def brierScore (predictions : List Float) (outcomes : List Bool) : Option Float :=
  if predictions.isEmpty || predictions.length != outcomes.length then none
  else some (Sample.mean (List.zipWith (fun p won =>
    (p - indicator won) * (p - indicator won)) predictions outcomes))

/-- The mean negative log-likelihood of the outcomes, each prediction clamped into `bounds`. -/
def logLoss (ln : Float → Float) (predictions : List Float) (outcomes : List Bool)
    (bounds : ProbabilityBounds) : Except Fault (Option Float) :=
  if predictions.isEmpty || predictions.length != outcomes.length then pure none
  else do
    let losses ← (List.zip predictions outcomes).mapM fun (p, won) => do
      let p ← bounds.clamp p
      pure (if won then -ln p else -ln (1.0 - p))
    pure (some (Sample.mean losses))

/-- A Brier score and a log loss. -/
structure Metrics where
  brierScore : Float
  logLoss : Float
  deriving Inhabited

/-- Both scores of the predictions, if there is something to score. -/
def Metrics.evaluate (ln : Float → Float) (predictions : List Float) (outcomes : List Bool)
    (bounds : ProbabilityBounds) : Except Fault (Option Metrics) :=
  match DoublesLineup.brierScore predictions outcomes with
  | none => pure none
  | some brier => do
    match ← DoublesLineup.logLoss ln predictions outcomes bounds with
    | none => pure none
    | some loss => pure (some ⟨brier, loss⟩)

/-- The win rate on its own against the blended estimate, over held-out rows. -/
structure CalibrationReport where
  /-- The number of rows. -/
  rows : Nat
  /-- The rows that carried a point-differential signal. -/
  withSecondary : Nat
  /-- The scores of the clamped win rate. -/
  base : Metrics
  /-- The scores of the blended estimate. -/
  blended : Metrics
  deriving Inhabited

namespace CalibrationReport

/-- The report over the rows, none when there are no rows. -/
def evaluate (ln : Float → Float) (rows : List HoldoutRow) (blender : Blender) :
    Except Fault (Option CalibrationReport) := do
  let outcomes := rows.map (·.won)
  let base ← rows.mapM fun row => blender.bounds.clamp row.winRateShrunk
  let blended ← rows.mapM fun row => do
    blender.bounds.clamp (← blender.blend row.winRateShrunk row.pdWinProbability row.reliability
      row.signalCorrelation)
  let some baseMetrics ← Metrics.evaluate ln base outcomes blender.bounds | pure none
  let some blendedMetrics ← Metrics.evaluate ln blended outcomes blender.bounds | pure none
  pure (some ⟨rows.length, (rows.filter (·.pdWinProbability.isSome)).length, baseMetrics,
    blendedMetrics⟩)

/-- The fall in Brier score from blending; positive is better. -/
def brierImprovement (r : CalibrationReport) : Float :=
  r.base.brierScore - r.blended.brierScore

end CalibrationReport

end DoublesLineup
