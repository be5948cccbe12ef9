import DoublesLineup.Fault
import DoublesLineup.Numeric.Ieee
/-! # Blending a win rate with a point-differential signal

A pair's historical win rate, shrunk toward even, is the primary estimate of its chance to win.
A second estimate, implied by point differentials, is admitted with a weight that grows with
the pair's sample reliability, is damped when the two signals have not been correlated, and
vanishes as the two estimates disagree by half or more. The weight never passes the blender's
`maxSecondaryWeight`, so with a maximum of at most one half the win rate always keeps at
least an equal say. A blended estimate is clamped into the blender's probability bounds, and
a value that is not finite becomes even odds.
-/

namespace DoublesLineup

/-- Even odds. -/
def neutralProbability : Float := 0.5

/-- The range a blended probability is kept in. -/
structure ProbabilityBounds where
  /-- The least probability. -/
  lower : Float
  /-- The greatest probability. -/
  upper : Float
  deriving Inhabited

namespace ProbabilityBounds

/-- The bounds for judging estimates against held-out outcomes. -/
def calibration : ProbabilityBounds := ⟨0.01, 0.99⟩

/-- The tighter bounds for scoring lineups. -/
def scoring : ProbabilityBounds := ⟨0.05, 0.95⟩

/-- A finite probability clamped into the bounds; a value that is not finite gives even odds.
Bounds out of order, or not numbers, are a fault when a finite value is clamped. -/
def clamp (b : ProbabilityBounds) (p : Float) : Except Fault Float :=
  if p.isFinite then clampChecked p b.lower b.upper else pure neutralProbability

/-- Whether `0 ≤ lower < 0.5 < upper ≤ 1`. -/
def valid (b : ProbabilityBounds) : Bool :=
  0.0 ≤ b.lower && b.lower < neutralProbability && neutralProbability ≤ b.upper && b.upper ≤ 1.0
    && !(b.upper ≤ neutralProbability)

/-- Checks `0 ≤ lower < 0.5 < upper ≤ 1`, with the message that names the bounds. -/
def validate (b : ProbabilityBounds) : Except String Unit :=
  if b.valid then pure ()
  else .error ("probability bounds [" ++ Decimal.Notation.plain.render b.lower ++ ", " ++
    Decimal.Notation.plain.render b.upper ++ "] must satisfy 0 ≤ lower < 0.5 < upper ≤ 1")

end ProbabilityBounds

/-- The share of the weight kept when the signals' correlation is unknown or not positive. -/
def uncorrelatedDamping : Float := 0.25

/-- The disagreement at which the secondary signal is ignored. -/
def maxDisagreement : Float := 0.5

/-- How two estimates are blended: the bounds of the result and the most weight the secondary
estimate may get. -/
structure Blender where
  /-- The range of a blended estimate. -/
  bounds : ProbabilityBounds
  /-- The greatest weight of the secondary estimate. -/
  maxSecondaryWeight : Float
  deriving Inhabited

namespace Blender

/-- The default greatest secondary weight. -/
def defaultMaxSecondaryWeight : Float := 0.5

/-- The blender for judging estimates against held-out outcomes. -/
def calibration : Blender := ⟨.calibration, defaultMaxSecondaryWeight⟩

/-- The blender for scoring lineups. -/
def scoring : Blender := ⟨.scoring, defaultMaxSecondaryWeight⟩

/-- The weight of the secondary estimate `pd` against the win rate `base`: the maximum weight,
times the reliability (taken in `[0, 1]`, zero when not finite), times a correlation factor
(from a quarter for no positive correlation up to one), times the agreement
`1 - min(|base - pd| / 0.5, 1)`. -/
def secondaryWeight (b : Blender) (base pd reliability : Float) (correlation : Option Float) :
    Float :=
  let reliability := if reliability.isFinite then clampTo reliability 0.0 1.0 else 0.0
  let factor := match correlation with
    | some c =>
      if c.isFinite && c > 0.0 then
        uncorrelatedDamping + (1.0 - uncorrelatedDamping) * minNum c 1.0
      else uncorrelatedDamping
    | none => uncorrelatedDamping
  let agreement := 1.0 - minNum ((base - pd).abs / maxDisagreement) 1.0
  b.maxSecondaryWeight * reliability * factor * agreement

/-- Blends a win rate with an optional secondary estimate. A win rate that is not finite is
even odds. Without a usable secondary estimate a win rate in `[0, 1]` is returned as it is
and any other is clamped; with one, both are first kept in `[0, 1]`, mixed by the secondary
weight, and the mix is clamped. -/
def blend (b : Blender) (base : Float) (pd : Option Float) (reliability : Float)
    (correlation : Option Float) : Except Fault Float :=
  let base := if base.isFinite then base else neutralProbability
  match pd with
  | none => if 0.0 ≤ base && base ≤ 1.0 then pure base else b.bounds.clamp base
  | some pd =>
    if !pd.isFinite then b.bounds.clamp base
    else
      let base := clampTo base 0.0 1.0
      let pd := clampTo pd 0.0 1.0
      let w := b.secondaryWeight base pd reliability correlation
      b.bounds.clamp ((1.0 - w) * base + w * pd)

end Blender

end DoublesLineup
