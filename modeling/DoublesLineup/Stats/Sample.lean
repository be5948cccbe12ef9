import DoublesLineup.Numeric.Ieee
/-! # Samples of doubles

Sums, means, spreads and quantiles of a list of doubles, in the order the list gives: a sum
adds from the left starting at `-0.0`, so that the sum of nothing, or of negative zeros only,
is `-0.0`. The mean and spread of an empty sample are zero. The quantile is the nearest-rank
one on the sample sorted in the total order (`totalKey`).

`normaliseWeights` turns scenario weights into a probability vector: negative weights and
weights that are not finite count as zero, the rest are divided by the largest before they
are summed (so the sum stays finite), and if nothing positive remains every weight is equal.
-/

namespace DoublesLineup

namespace Sample

/-- The sum from the left, starting at `-0.0`. -/
def sum (xs : List Float) : Float := xs.foldl (· + ·) (-0.0)

/-- The arithmetic mean; zero for an empty sample. -/
def mean (xs : List Float) : Float :=
  if xs.isEmpty then 0.0 else sum xs / natToFloat xs.length

/-- The population standard deviation; zero for an empty sample. -/
def stdev (xs : List Float) : Float :=
  if xs.isEmpty then 0.0
  else
    let m := mean xs
    (sum (xs.map fun x => (x - m) * (x - m)) / natToFloat xs.length).sqrt

/-- The sample sorted in the total order of doubles. -/
def sorted (xs : List Float) : List Float :=
  xs.mergeSort fun a b => totalKey a ≤ totalKey b

/-- The nearest-rank quantile: the entry of rank `⌈q · n⌉` of the sorted sample, the rank
saturated to a natural number and kept in `[1, n]`. Zero for an empty sample. -/
def quantile (xs : List Float) (q : Float) : Float :=
  if xs.isEmpty then 0.0
  else
    let n := xs.length
    let rank := ceilIndex (q * natToFloat n)
    let rank := max 1 (min rank n)
    (sorted xs).getD (rank - 1) 0.0

/-- Scales the sample so that it sums to `target`, by `target` over its sum; returns that sum
and the scaled sample. -/
def normalise (xs : List Float) (target : Float) : Float × List Float :=
  let s := sum xs
  let factor := target / s
  (s, xs.map (· * factor))

/-- The sum of the values times their weights. -/
def weightedMean (values weights : List Float) : Float :=
  sum (List.zipWith (· * ·) values weights)

/-- The square root of the weighted sum of squared deviations from `center`, the sum taken as
zero when it is negative or not a number. -/
def weightedStdev (values weights : List Float) (center : Float) : Float :=
  let variance := sum (List.zipWith (fun v w => w * ((v - center) * (v - center))) values weights)
  (maxNum variance 0.0).sqrt

end Sample

/-- A scenario weight as it counts: zero when it is negative or not finite. -/
def cleanWeight (w : Float) : Float := if !w.isFinite || w < 0.0 then 0.0 else w

/-- Scenario weights made into a probability vector. -/
def normaliseWeights (weights : List Float) : List Float :=
  let clean := weights.map cleanWeight
  let largest := clean.foldl maxNum 0.0
  if largest > 0.0 then (Sample.normalise (clean.map (· / largest)) 1.0).2
  else if clean.isEmpty then []
  else clean.map fun _ => 1.0 / natToFloat clean.length

end DoublesLineup
