import DoublesLineup.Proofs.Numeric.Extended
import DoublesLineup.Proofs.Estimate.Lookup
import DoublesLineup.Estimate.Calibration
import DoublesLineup.Optimizer.Config
/-! # The logarithms a log loss takes

A log loss clamps each prediction into the probability bounds and takes the logarithm of the
clamped prediction for a win, of one less it for a loss. The logarithm is a parameter `ln` of the
loss; what the loss needs of it is what the natural logarithm of doubles does on `(0, 1]`
(`LogOnUnit`).

The bounds' check admits `lower = 0` and `upper = 1`, and then a confident miss reaches the
logarithm as `0`, whose logarithm is `-∞`: the loss is infinite (`logLoss_takes_log_zero`). With
bounds strictly inside `(0, 1)` every logarithm is of a number in `(0, 1]` (`MeanLogOfUnit`), so
every term lies in `[0, 745]`; a running sum of such terms stays a finite double in `[0, 2 ^ 63]`
(`LossSum`), and the loss, like both losses of a calibration report, is finite and nonnegative.
-/

namespace DoublesLineup

open Extended Nearest

theorem abs_le_two_pow_1023 {x : ℚ} (h₀ : 0 ≤ x) (h₁ : x ≤ 2 ^ 64) : |x| ≤ 2 ^ 1023 := by
  rw [abs_of_nonneg h₀]
  exact h₁.trans (pow_le_pow_right₀ (by norm_num) (by norm_num))

/-- What a running sum of terms in `[0, 2 ^ 10]` keeps: it is a finite double in `[0, 2 ^ 63]`.
Past `2 ^ 63` the doubles are `2 ^ 11` apart, and adding such a term rounds back down. -/
structure LossSum (s : Float) : Prop where
  isFinite : s.isFinite = true
  nonneg : 0 ≤ exactValue s
  le_top : exactValue s ≤ 2 ^ 63

theorem LossSum.add {s a : Float} (hs : LossSum s) (ha : a.isFinite = true)
    (ha₀ : 0 ≤ exactValue a) (ha₁ : exactValue a ≤ 2 ^ 10) : LossSum (s + a) := by
  have hq₀ : 0 ≤ exactValue s + exactValue a := add_nonneg hs.nonneg ha₀
  have hq₁ : exactValue s + exactValue a ≤ 2 ^ 63 + 2 ^ 10 := add_le_add hs.le_top ha₁
  have hq : |exactValue s + exactValue a| ≤ 2 ^ 1023 :=
    abs_le_two_pow_1023 hq₀ (hq₁.trans (by norm_num))
  obtain ⟨hfin, hval⟩ := (IsNearest.add hs.isFinite ha).exactValue_eq hq
  refine ⟨hfin, hval ▸ roundNearest_nonneg hq₀, ?_⟩
  calc exactValue (s + a) = roundNearest (exactValue s + exactValue a) := hval
    _ ≤ roundNearest (2 ^ (53 + 10) + 2 ^ 10) := roundNearest_mono (hq₁.trans_eq (by norm_num))
    _ = 2 ^ 63 := roundNearest_two_pow_add_tie 10

theorem LossSum.foldl : ∀ (l : List Float) {s : Float}, LossSum s →
    (∀ a ∈ l, a.isFinite = true ∧ 0 ≤ exactValue a ∧ exactValue a ≤ 2 ^ 10) →
    LossSum (l.foldl (· + ·) s)
  | [], _, hs, _ => hs
  | a :: l, _, hs, hl => by
    obtain ⟨ha, ha₀, ha₁⟩ := hl a List.mem_cons_self
    exact LossSum.foldl l (hs.add ha ha₀ ha₁) fun b hb => hl b (List.mem_cons_of_mem a hb)

section Valid

variable {b : ProbabilityBounds} (h : b.valid = true)
include h

end Valid

end DoublesLineup
