import DoublesLineup.Estimate.Lookup
import DoublesLineup.Proofs.Except
import DoublesLineup.Proofs.Numeric.Rank
/-! # Blending is bounded and never faults

Bounds that pass their check are numbers with `0 ≤ lower < 0.5 < upper ≤ 1`. A clamp into them
succeeds and lands inside them: a finite value is moved to the nearer bound or kept, and any other
value is even odds, which lies strictly between the bounds. Every branch of a blend that takes a
secondary estimate ends in such a clamp, so its result lies within the bounds whatever the inputs,
not-a-numbers and infinities included. Without a secondary estimate a win rate in `[0, 1]` is kept,
one that is not finite is even odds, and any other is clamped (`Blender.blend_bounded`).

Every estimate of a lookup is clamped into its blender's bounds, or is even odds; under bounds
that pass their check every win probability it gives lies in `[0, 1]`.
-/

namespace DoublesLineup

open FloatOrder

theorem isNaN_eq_false_of_isFinite {x : Float} (h : x.isFinite = true) : x.isNaN = false := by
  revert h
  show x.toModel.unpack.isFinite = true → x.toModel.unpack.isNaN = false
  cases x.toModel.unpack <;> simp [Float.Model.UnpackedFloat.isFinite,
    Float.Model.UnpackedFloat.isNaN]

theorem le_of_not_lt {a b : Float} (ha : a.isNaN = false) (hb : b.isNaN = false) (h : ¬a < b) :
    b ≤ a := by
  by_contra hba
  exact h (lt_of_not_le hb ha hba)

theorem isFinite_of_le_of_le {lo x hi : Float} (hlo : lo ≤ x) (hhi : x ≤ hi)
    (hlo' : lo.isFinite = true) (hhi' : hi.isFinite = true) : x.isFinite = true := by
  rw [le_iff] at hlo hhi
  change lo.toModel.unpack.isFinite = true at hlo'
  change hi.toModel.unpack.isFinite = true at hhi'
  change x.toModel.unpack.isFinite = true
  generalize lo.toModel.unpack = l at *
  generalize x.toModel.unpack = u at *
  generalize hi.toModel.unpack = h at *
  rcases u with ⟨s⟩ | _ | _ | _
  · rcases l with ⟨s₁⟩ | _ | _ | _ <;> rcases h with ⟨s₂⟩ | _ | _ | _ <;> cases s <;>
      simp_all [Float.Model.UnpackedFloat.le, Float.Model.UnpackedFloat.compare,
        Float.Model.UnpackedFloat.isFinite]
  · rcases l with ⟨s₁⟩ | _ | _ | _ <;>
      simp_all [Float.Model.UnpackedFloat.le, Float.Model.UnpackedFloat.compare,
        Float.Model.UnpackedFloat.isFinite]
  · rfl
  · rfl

theorem clampTo_mem {x lo hi : Float} (hx : x.isNaN = false) (h : lo ≤ hi) :
    lo ≤ clampTo x lo hi ∧ clampTo x lo hi ≤ hi := by
  obtain ⟨hlo, hhi⟩ := isNaN_eq_false_of_le h
  unfold clampTo
  split_ifs with below above
  · exact ⟨le_refl_of_isNaN hlo, h⟩
  · exact ⟨h, le_refl_of_isNaN hhi⟩
  · exact ⟨le_of_not_lt hx hlo below, le_of_not_lt hhi hx above⟩

namespace ProbabilityBounds

theorem valid_of_validate {b : ProbabilityBounds} {u : Unit} (h : b.validate = .ok u) :
    b.valid = true := by
  unfold validate at h
  split at h
  · assumption
  · cases h

/-- Valid bounds are numbers with `0 ≤ lower < 0.5 < upper ≤ 1`. -/
theorem valid_spec {b : ProbabilityBounds} (h : b.valid = true) :
    0.0 ≤ b.lower ∧ b.lower < neutralProbability ∧ neutralProbability < b.upper ∧
      b.upper ≤ 1.0 := by
  simp only [valid, Bool.and_eq_true, Bool.not_eq_true', decide_eq_true_eq,
    decide_eq_false_iff_not] at h
  obtain ⟨⟨⟨⟨nonneg, below⟩, above⟩, atMost⟩, notAtMost⟩ := h
  have hupper := (isNaN_eq_false_of_le atMost).1
  exact ⟨nonneg, below, lt_of_not_le hupper (isNaN_eq_false_of_lt below).2 notAtMost, atMost⟩

theorem clamp_mem {b : ProbabilityBounds} (h : b.valid = true) (p : Float) :
    ∃ v, b.clamp p = .ok v ∧ b.lower ≤ v ∧ v ≤ b.upper := by
  obtain ⟨-, below, above, -⟩ := valid_spec h
  have hle := lower_le_upper h
  refine ⟨_, clamp_eq hle p, ?_⟩
  split
  · exact clampTo_mem (isNaN_eq_false_of_isFinite ‹_›) hle
  · exact ⟨le_of_lt below, le_of_lt above⟩

theorem clamp_unit {b : ProbabilityBounds} (h : b.valid = true) {p v : Float}
    (hv : b.clamp p = .ok v) : 0.0 ≤ v ∧ v ≤ 1.0 := by
  obtain ⟨w, hw, hlo, hhi⟩ := b.clamp_mem h p
  obtain ⟨hzero, -, -, hone⟩ := valid_spec h
  cases hw.symm.trans hv
  exact ⟨le_trans hzero hlo, le_trans hhi hone⟩

end ProbabilityBounds

namespace Blender

variable {b : Blender} (reliability : Float) (correlation : Option Float)

theorem blend_some (h : b.bounds.valid = true) (base pd : Float) :
    ∃ v, b.blend base (some pd) reliability correlation = .ok v ∧
      b.bounds.lower ≤ v ∧ v ≤ b.bounds.upper := by
  unfold blend
  dsimp only
  split
  · exact b.bounds.clamp_mem h _
  · exact b.bounds.clamp_mem h _

theorem blend_none_of_isFinite {base : Float} (hfin : base.isFinite = true) :
    b.blend base none reliability correlation =
      if 0.0 ≤ base ∧ base ≤ 1.0 then .ok base else b.bounds.clamp base := by
  simp only [blend, hfin, if_true, Bool.and_eq_true, decide_eq_true_eq]
  rfl

theorem blend_none_of_not_isFinite {base : Float} (hfin : base.isFinite = false) :
    b.blend base none reliability correlation = .ok neutralProbability := by
  simp only [blend, hfin, Bool.false_eq_true, if_false]
  rfl

end Blender

/-- Blending never faults under bounds that pass their check, whatever its inputs, and the
result lies within the bounds whenever a secondary estimate is given. Without one, a win rate in
`[0, 1]` is returned as it is, one that is not finite is even odds, and any other is clamped into
the bounds. So the calibration blender always lands in `[0.01, 0.99]` when given a secondary
estimate. -/
theorem Blender.blend_bounded :
    (∀ b : Blender, b.bounds.validate = .ok () →
      ∀ (base : Float) (pd : Option Float) (reliability : Float) (correlation : Option Float),
        ∃ v, b.blend base pd reliability correlation = .ok v ∧
          (∀ p, pd = some p → b.bounds.lower ≤ v ∧ v ≤ b.bounds.upper) ∧
          (pd = none →
            (0.0 ≤ base ∧ base ≤ 1.0 → v = base) ∧
            (base.isFinite = false → v = neutralProbability) ∧
            (base.isFinite = true → ¬(0.0 ≤ base ∧ base ≤ 1.0) →
              b.bounds.clamp base = .ok v ∧ b.bounds.lower ≤ v ∧ v ≤ b.bounds.upper))) ∧
    ∀ (base pd reliability : Float) (correlation : Option Float),
      ∃ v, Blender.calibration.blend base (some pd) reliability correlation = .ok v ∧
        0.01 ≤ v ∧ v ≤ 0.99 := by
  refine ⟨fun b hb base pd reliability correlation => ?_, fun base pd reliability correlation =>
    Blender.blend_some reliability correlation (by decide) base pd⟩
  have hvalid := ProbabilityBounds.valid_of_validate hb
  cases pd with
  | some pd =>
    obtain ⟨v, hv, hmem⟩ := Blender.blend_some reliability correlation hvalid base pd
    exact ⟨v, hv, fun _ _ => hmem, nofun⟩
  | none =>
    cases hfin : base.isFinite with
    | false =>
      have hout : ¬(0.0 ≤ base ∧ base ≤ 1.0) := fun ⟨h₀, h₁⟩ => by
        rw [isFinite_of_le_of_le h₀ h₁ (by decide) (by decide)] at hfin
        cases hfin
      exact ⟨_, Blender.blend_none_of_not_isFinite reliability correlation hfin, nofun,
        fun _ => ⟨fun hin => absurd hin hout, fun _ => rfl, nofun⟩⟩
    | true =>
      rw [Blender.blend_none_of_isFinite reliability correlation hfin]
      by_cases hin : 0.0 ≤ base ∧ base ≤ 1.0
      · exact ⟨base, if_pos hin, nofun,
          fun _ => ⟨fun _ => rfl, nofun, fun _ hout => absurd hin hout⟩⟩
      · obtain ⟨v, hv, hmem⟩ := b.bounds.clamp_mem hvalid base
        rw [if_neg hin]
        exact ⟨v, hv, nofun, fun _ => ⟨fun h => absurd h hin, nofun, fun _ _ => ⟨hv, hmem⟩⟩⟩

/-- A win rate, secondary estimate, reliability and correlation that are none of them numbers
still blend within the scoring bounds. -/
theorem Blender.blend_bounded_of_scoring :
    Blender.scoring.bounds.validate = .ok () ∧
      ∃ v, Blender.scoring.blend quietNaN (some infinity) infinity (some quietNaN) = .ok v ∧
        (∀ p, some infinity = some p → Blender.scoring.bounds.lower ≤ v ∧
          v ≤ Blender.scoring.bounds.upper) ∧
        (some infinity = none →
          (0.0 ≤ quietNaN ∧ quietNaN ≤ 1.0 → v = quietNaN) ∧
          (quietNaN.isFinite = false → v = neutralProbability) ∧
          (quietNaN.isFinite = true → ¬(0.0 ≤ quietNaN ∧ quietNaN ≤ 1.0) →
            Blender.scoring.bounds.clamp quietNaN = .ok v ∧ Blender.scoring.bounds.lower ≤ v ∧
              v ≤ Blender.scoring.bounds.upper)) :=
  have hvalid : Blender.scoring.bounds.validate = .ok () := rfl
  ⟨hvalid, Blender.blend_bounded.1 _ hvalid quietNaN (some infinity) infinity (some quietNaN)⟩

namespace StatsLookup

variable {l : StatsLookup} (hvalid : l.blender.bounds.valid = true)
include hvalid

theorem estimate_unit {winRate : Float} {pd : Option Float} {reliability : Float}
    {correlation : Option Float} {source : Source} {e : WinEstimate}
    (h : l.estimate winRate pd reliability correlation source = .ok e) :
    0.0 ≤ e.probability ∧ e.probability ≤ 1.0 := by
  unfold estimate at h
  obtain ⟨blended, -, h⟩ := bind_eq_ok.mp h
  obtain ⟨probability, hclamp, h⟩ := bind_eq_ok.mp h
  cases h
  exact ProbabilityBounds.clamp_unit hvalid hclamp

theorem candidate_unit {p : Pair} {t : Option MatchType} {e : WinEstimate}
    (h : l.candidate p t = .ok e) : 0.0 ≤ e.probability ∧ e.probability ≤ 1.0 := by
  unfold candidate at h
  split at h
  · -- even odds
    cases h
    decide
  · exact estimate_unit hvalid h

theorem matchup_unit {ours theirs : Pair} {t : Option MatchType} {e : WinEstimate}
    (h : l.matchup ours theirs t = .ok e) : 0.0 ≤ e.probability ∧ e.probability ≤ 1.0 := by
  unfold matchup at h
  split at h
  · exact candidate_unit hvalid h
  · exact estimate_unit hvalid h

end StatsLookup

end DoublesLineup
