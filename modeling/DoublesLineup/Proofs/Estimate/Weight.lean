import DoublesLineup.Proofs.Numeric.Extended
import DoublesLineup.Proofs.Estimate.Reliable
/-! # The secondary estimate never dominates

A blend admits the point-differential estimate with the weight
`maxSecondaryWeight * reliability * correlation factor * agreement`. Each factor is kept in
`[0, 1]` whatever the inputs, not-a-numbers and infinities included, so the weight lies between
zero and its maximum (`weight_mem`). Read as rounded exact products, the weight grows with each
factor (`weight_mono`): with the reliability, with the correlation, and as the two estimates
come closer. With a maximum of at most one half the mix gives the win rate at least an equal
say, and a clamp into bounds around the win rate only moves the mix back toward it, so that in
exact arithmetic the blend is never farther from the win rate than from the secondary estimate
(`exactBlend_closer_to_base`). The win rate is first clamped into `[0, 1]`, which is why the
bounds must lie within `[0, 1]` for that: below zero the clamp moves the win rate itself.
-/

namespace DoublesLineup

open Extended

/-- The correlation factor of the secondary weight: a quarter without a positive finite
correlation, and up to one as the correlation grows to one. -/
def correlationFactor : Option Float → Float
  | some c =>
    if c.isFinite && c > 0.0 then
      uncorrelatedDamping + (1.0 - uncorrelatedDamping) * minNum c 1.0
    else uncorrelatedDamping
  | none => uncorrelatedDamping

/-- The agreement factor of the secondary weight: one less the disagreement counted in halves,
and zero from a disagreement of one half on. -/
def agreementFactor (base pd : Float) : Float :=
  1.0 - minNum ((base - pd).abs / maxDisagreement) 1.0

theorem Blender.secondaryWeight_eq (b : Blender) (base pd reliability : Float)
    (correlation : Option Float) :
    b.secondaryWeight base pd reliability correlation =
      b.maxSecondaryWeight * unitReliability reliability * correlationFactor correlation *
        agreementFactor base pd := by
  cases correlation <;> rfl

/-- A double in `[0, 1]`. -/
def InUnit (x : Float) : Prop := 0.0 ≤ x ∧ x ≤ 1.0

theorem InUnit.isFinite {x : Float} (h : InUnit x) : x.isFinite = true :=
  isFinite_of_le_of_le h.1 h.2 rfl rfl

theorem InUnit.refl {x : Float} (h : InUnit x) : x ≤ x :=
  FloatOrder.le_refl_of_isNaN (isNaN_eq_false_of_isFinite h.isFinite)

/-! ### Products of factors in `[0, 1]` -/

section Products

theorem mul_le_mul_of_unit {p p' f f' : Float} (hp : p.isFinite = true) (hp' : p'.isFinite = true)
    (hp₀ : 0.0 ≤ p') (hf : InUnit f) (hf' : InUnit f') (hpp : p ≤ p') (hff : f ≤ f') :
    p * f ≤ p' * f' :=
  FloatOrder.le_trans (mul_mono_left hp hp' hf.isFinite hf.1 hpp)
    (mul_mono_right hp' hf.isFinite hf'.isFinite hp₀ hff)

variable {M R R' F F' A A' : Float} (hM : M.isFinite = true) (hM₀ : 0.0 ≤ M)
include hM hM₀

theorem weight_mem (hR : InUnit R) (hF : InUnit F) (hA : InUnit A) :
    (M * R * F * A).isFinite = true ∧ 0.0 ≤ M * R * F * A ∧ M * R * F * A ≤ M := by
  obtain ⟨h₁, h₁₀, h₁₁⟩ := mul_mem_of_unit hM hM₀ hR.1 hR.2
  obtain ⟨h₂, h₂₀, h₂₁⟩ := mul_mem_of_unit h₁ h₁₀ hF.1 hF.2
  obtain ⟨h₃, h₃₀, h₃₁⟩ := mul_mem_of_unit h₂ h₂₀ hA.1 hA.2
  exact ⟨h₃, h₃₀, FloatOrder.le_trans h₃₁ (FloatOrder.le_trans h₂₁ h₁₁)⟩

theorem weight_mono (hR : InUnit R) (hR' : InUnit R') (hF : InUnit F) (hF' : InUnit F')
    (hA : InUnit A) (hA' : InUnit A') (hRR : R ≤ R') (hFF : F ≤ F') (hAA : A ≤ A') :
    M * R * F * A ≤ M * R' * F' * A' := by
  obtain ⟨h₁, h₁₀, -⟩ := mul_mem_of_unit hM hM₀ hR.1 hR.2
  obtain ⟨h₁', h₁₀', -⟩ := mul_mem_of_unit hM hM₀ hR'.1 hR'.2
  obtain ⟨h₂, -, -⟩ := mul_mem_of_unit h₁ h₁₀ hF.1 hF.2
  obtain ⟨h₂', h₂₀', -⟩ := mul_mem_of_unit h₁' h₁₀' hF'.1 hF'.2
  have hRstep : M * R ≤ M * R' := mul_mono_right hM hR.isFinite hR'.isFinite hM₀ hRR
  have hFstep := mul_le_mul_of_unit h₁ h₁' h₁₀' hF hF' hRstep hFF
  exact mul_le_mul_of_unit h₂ h₂' h₂₀' hA hA' hFstep hAA

end Products

/-! ### The reliability factor -/

theorem unitReliability_inUnit (r : Float) : InUnit (unitReliability r) := by
  unfold unitReliability
  split
  · exact clampTo_mem (isNaN_eq_false_of_isFinite ‹_›) (by decide)
  · exact ⟨by decide, by decide⟩

theorem lt_infinity_of_isFinite {x : Float} (hx : x.isFinite = true) : x < infinity := by
  have hinf : extendedValue infinity = 2 ^ 1024 := rfl
  rw [lt_iff_extendedValue (isNaN_eq_false_of_isFinite hx) rfl, hinf]
  exact (abs_lt.mp (abs_extendedValue_lt hx)).2

/-! ### The correlation factor -/

theorem exactValue_uncorrelatedDamping : exactValue uncorrelatedDamping = 1 / 4 := by
  rw [exactValue, show uncorrelatedDamping.toModel.unpack =
    .finite .positive (2 ^ 52) (-54) (by norm_num) from rfl, unpackedValue_positive]
  norm_num

theorem exactValue_correlatedShare : exactValue (1.0 - uncorrelatedDamping) = 3 / 4 := by
  rw [exactValue, show (1.0 - uncorrelatedDamping).toModel.unpack =
    .finite .positive (3 * 2 ^ 51) (-53) (by norm_num) from rfl, unpackedValue_positive]
  norm_num

theorem correlatedFactor_mem {m : Float} (hm : InUnit m) :
    uncorrelatedDamping ≤ uncorrelatedDamping + (1.0 - uncorrelatedDamping) * m ∧
      uncorrelatedDamping + (1.0 - uncorrelatedDamping) * m ≤ 1.0 := by
  obtain ⟨ht, ht₀, ht₁⟩ :=
    mul_mem_of_unit (x := 1.0 - uncorrelatedDamping) rfl (by decide) hm.1 hm.2
  have hT₀ := exactValue_nonneg ht ht₀
  have hT₁ := exactValue_le_of_le ht₁ ht rfl
  rw [exactValue_correlatedShare] at hT₁
  have hsum := IsNearest.add (x := uncorrelatedDamping) rfl ht
  rw [exactValue_uncorrelatedDamping] at hsum
  refine ⟨(IsNearest.self rfl).le hsum ?_, hsum.le (IsNearest.self rfl) ?_⟩
  · rw [exactValue_uncorrelatedDamping]
    linarith
  · rw [exactValue_one]
    linarith

theorem correlatedFactor_mono {m m' : Float} (hm : InUnit m) (hm' : InUnit m') (h : m ≤ m') :
    uncorrelatedDamping + (1.0 - uncorrelatedDamping) * m ≤
      uncorrelatedDamping + (1.0 - uncorrelatedDamping) * m' := by
  obtain ⟨ht, -, -⟩ := mul_mem_of_unit (x := 1.0 - uncorrelatedDamping) rfl (by decide) hm.1 hm.2
  obtain ⟨ht', -, -⟩ := mul_mem_of_unit (x := 1.0 - uncorrelatedDamping) rfl (by decide) hm'.1 hm'.2
  exact add_mono_right rfl ht ht' (mul_mono_right rfl hm.isFinite hm'.isFinite (by decide) h)

theorem minNum_one_inUnit_of_nonneg {x : Float} (hx : x.isNaN = false)
    (h₀ : 0 ≤ extendedValue x) : InUnit (minNum x 1.0) := by
  obtain ⟨hn, hv⟩ := extendedValue_minNum hx (y := 1.0) rfl
  constructor
  · rw [le_iff_extendedValue (x := 0.0) rfl hn, hv, extendedValue_zero, extendedValue_one]
    exact le_min h₀ zero_le_one
  · rw [le_iff_extendedValue (y := 1.0) hn rfl, hv, extendedValue_one]
    exact min_le_right _ _

theorem minNum_one_inUnit {c : Float} (hc : c.isFinite = true) (hpos : 0.0 < c) :
    InUnit (minNum c 1.0) := by
  have hc₀ : (0 : ℚ) < extendedValue c :=
    by simpa using (lt_iff_extendedValue rfl (isNaN_eq_false_of_isFinite hc)).mp hpos
  exact minNum_one_inUnit_of_nonneg (isNaN_eq_false_of_isFinite hc) hc₀.le

theorem correlationFactor_of_pos {c : Float} (hc : c.isFinite = true) (hpos : 0.0 < c) :
    correlationFactor (some c) =
      uncorrelatedDamping + (1.0 - uncorrelatedDamping) * minNum c 1.0 := by
  simp [correlationFactor, hc, hpos]

theorem correlationFactor_of_not_pos {c : Float} (h : ¬(c.isFinite = true ∧ 0.0 < c)) :
    correlationFactor (some c) = uncorrelatedDamping := by
  simp only [correlationFactor, Bool.and_eq_true, decide_eq_true_eq]
  exact if_neg h

theorem correlationFactor_mem (c : Option Float) :
    uncorrelatedDamping ≤ correlationFactor c ∧ correlationFactor c ≤ 1.0 := by
  have hleast : uncorrelatedDamping ≤ uncorrelatedDamping ∧ uncorrelatedDamping ≤ 1.0 :=
    ⟨by decide, by decide⟩
  rcases c with _ | c
  · exact hleast
  by_cases hpos : c.isFinite = true ∧ 0.0 < c
  · rw [correlationFactor_of_pos hpos.1 hpos.2]
    exact correlatedFactor_mem (minNum_one_inUnit hpos.1 hpos.2)
  · rw [correlationFactor_of_not_pos hpos]
    exact hleast

theorem correlationFactor_inUnit (c : Option Float) : InUnit (correlationFactor c) :=
  ⟨FloatOrder.le_trans (by decide) (correlationFactor_mem c).1, (correlationFactor_mem c).2⟩

theorem correlationFactor_mono {c c' : Float} (hc : c.isFinite = true) (hc' : c'.isFinite = true)
    (h : c ≤ c') : correlationFactor (some c) ≤ correlationFactor (some c') := by
  by_cases hpos' : 0.0 < c'
  · by_cases hpos : 0.0 < c
    · rw [correlationFactor_of_pos hc hpos, correlationFactor_of_pos hc' hpos']
      exact correlatedFactor_mono (minNum_one_inUnit hc hpos) (minNum_one_inUnit hc' hpos')
        (minNum_mono_left (isNaN_eq_false_of_isFinite hc) rfl h)
    · rw [correlationFactor_of_not_pos (fun h' => hpos h'.2)]
      exact (correlationFactor_mem _).1
  · -- neither is positive
    have hpos : ¬0.0 < c := fun h' => hpos' (FloatOrder.lt_of_lt_of_le h' h)
    rw [correlationFactor_of_not_pos (fun h' => hpos h'.2),
      correlationFactor_of_not_pos (fun h' => hpos' h'.2)]
    decide

/-! ### The agreement factor -/

theorem disagreement_inUnit (base pd : Float) :
    InUnit (minNum ((base - pd).abs / maxDisagreement) 1.0) := by
  by_cases hδ : (base - pd).isNaN = true
  · have hd := isNaN_div (isNaN_abs hδ) maxDisagreement
    simp only [minNum, hd, if_true]
    exact ⟨by decide, by decide⟩
  show InUnit (minNum ((base - pd).abs / 0.5) 1.0)
  obtain ⟨hD, hDv⟩ := extendedValue_abs (Bool.eq_false_iff.mpr hδ)
  obtain ⟨hd, hdv⟩ := extendedValue_div_half hD
  have hd₀ : 0 ≤ extendedValue ((base - pd).abs / 0.5) :=
    (saturate_nonneg (mul_nonneg zero_le_two (hDv ▸ abs_nonneg _))).trans_eq hdv.symm
  exact minNum_one_inUnit_of_nonneg hd hd₀

theorem one_sub_inUnit {m : Float} (hm : InUnit m) : InUnit (1.0 - m) := by
  have hsub := IsNearest.sub (x := 1.0) rfl hm.isFinite
  have h₀ := exactValue_nonneg hm.isFinite hm.1
  have h₁ := exactValue_le_one hm.isFinite hm.2
  constructor
  · exact (IsNearest.self rfl).le hsub (by simp only [exactValue_zero, exactValue_one]; linarith)
  · exact hsub.le (IsNearest.self rfl) (by simp only [exactValue_one]; linarith)

theorem agreementFactor_inUnit (base pd : Float) : InUnit (agreementFactor base pd) :=
  one_sub_inUnit (disagreement_inUnit base pd)

theorem agreementFactor_anti {base pd base' pd' : Float} (hb : base.isFinite = true)
    (hp : pd.isFinite = true) (hb' : base'.isFinite = true) (hp' : pd'.isFinite = true)
    (h : |exactValue base - exactValue pd| ≤ |exactValue base' - exactValue pd'|) :
    agreementFactor base' pd' ≤ agreementFactor base pd := by
  have hD := isNearest_abs_sub hb hp
  have hdd := div_half_mono hD.isNaN (hD.le (isNearest_abs_sub hb' hp') h)
  have hmm := minNum_mono_left (extendedValue_div_half hD.isNaN).1 (c := 1.0) rfl hdd
  exact sub_anti_right rfl (disagreement_inUnit base pd).isFinite
    (disagreement_inUnit base' pd').isFinite hmm

/-! ### Mixing in exact arithmetic -/

theorem clamped_mix_closer {L U B P w : ℚ} (hLB : L ≤ B) (hBU : B ≤ U) (hw₀ : 0 ≤ w)
    (hw₁ : w ≤ 1 / 2) :
    |max L (min ((1 - w) * B + w * P) U) - B| ≤ |P - max L (min ((1 - w) * B + w * P) U)| := by
  set m := (1 - w) * B + w * P with hm
  have hhalf : 0 ≤ 1 - 2 * w := by linarith
  rcases le_total B P with hBP | hPB
  · -- the mix lies in `[B, (B + P) / 2]`, and the clamp only moves it back toward `B`
    have hm₁ : B ≤ m := by nlinarith [mul_nonneg hw₀ (sub_nonneg.mpr hBP)]
    have hm₂ : m - B ≤ P - m := by nlinarith [mul_nonneg hhalf (sub_nonneg.mpr hBP)]
    have hv₁ : B ≤ max L (min m U) := le_max_of_le_right (le_min hm₁ hBU)
    have hv₂ : max L (min m U) ≤ m := max_le (hLB.trans hm₁) (min_le_left _ _)
    rw [abs_of_nonneg (by linarith), abs_of_nonneg (by linarith)]
    linarith
  · -- the mirror image: the mix lies in `[(P + B) / 2, B]`
    have hm₁ : m ≤ B := by nlinarith [mul_nonneg hw₀ (sub_nonneg.mpr hPB)]
    have hm₂ : B - m ≤ m - P := by nlinarith [mul_nonneg hhalf (sub_nonneg.mpr hPB)]
    have hv₁ : max L (min m U) ≤ B := max_le hLB (min_le_left _ _ |>.trans hm₁)
    have hv₂ : m ≤ max L (min m U) := le_max_of_le_right (le_min le_rfl (hm₁.trans hBU))
    rw [abs_of_nonpos (by linarith), abs_of_nonpos (by linarith)]
    linarith

theorem abs_unitClamp_sub_le {Q v : ℚ} (hv₀ : 0 ≤ v) (hv₁ : v ≤ 1) :
    |max 0 (min Q 1) - v| ≤ |Q - v| := by
  rcases le_total Q 1 with hQ₁ | hQ₁
  · rw [min_eq_left hQ₁]
    rcases le_total 0 Q with hQ₀ | hQ₀
    · rw [max_eq_right hQ₀]
    · rw [max_eq_left hQ₀, abs_of_nonpos (by linarith), abs_of_nonpos (by linarith)]
      linarith
  · rw [min_eq_right hQ₁, max_eq_right zero_le_one, abs_of_nonneg (by linarith),
      abs_of_nonneg (by linarith)]
    linarith

theorem clampTo_of_mem {x lo hi : Float} (hlo : lo ≤ x) (hhi : x ≤ hi) : clampTo x lo hi = x := by
  have hbelow : ¬x < lo := fun h => FloatOrder.lt_irrefl x (FloatOrder.lt_of_lt_of_le h hlo)
  have habove : ¬x > hi := fun h => FloatOrder.lt_irrefl x (FloatOrder.lt_of_le_of_lt hhi h)
  rw [clampTo, if_neg hbelow, if_neg habove]

/-! ### The weight -/

namespace Blender

section Weight

variable {b : Blender} (hmax₀ : 0.0 ≤ b.maxSecondaryWeight) (hmax₁ : b.maxSecondaryWeight ≤ 0.5)
include hmax₀ hmax₁

theorem maxSecondaryWeight_isFinite : b.maxSecondaryWeight.isFinite = true :=
  isFinite_of_le_of_le hmax₀ hmax₁ rfl rfl

/-- The weight lies in `[0, maxSecondaryWeight]` whatever its inputs. -/
theorem secondaryWeight_mem (base pd reliability : Float) (correlation : Option Float) :
    0.0 ≤ b.secondaryWeight base pd reliability correlation ∧
      b.secondaryWeight base pd reliability correlation ≤ b.maxSecondaryWeight := by
  rw [secondaryWeight_eq]
  exact (weight_mem (maxSecondaryWeight_isFinite hmax₀ hmax₁) hmax₀ (unitReliability_inUnit _)
    (correlationFactor_inUnit _) (agreementFactor_inUnit _ _)).2

theorem secondaryWeight_mono {base pd base' pd' r r' : Float} {c c' : Option Float}
    (hr : unitReliability r ≤ unitReliability r') (hc : correlationFactor c ≤ correlationFactor c')
    (ha : agreementFactor base pd ≤ agreementFactor base' pd') :
    b.secondaryWeight base pd r c ≤ b.secondaryWeight base' pd' r' c' := by
  rw [secondaryWeight_eq, secondaryWeight_eq]
  exact weight_mono (maxSecondaryWeight_isFinite hmax₀ hmax₁) hmax₀ (unitReliability_inUnit r)
    (unitReliability_inUnit r') (correlationFactor_inUnit c) (correlationFactor_inUnit c')
    (agreementFactor_inUnit base pd) (agreementFactor_inUnit base' pd') hr hc ha

theorem secondaryWeight_mono_reliability (base pd : Float) {r r' : Float}
    (hr' : r'.isFinite = true) (h : r ≤ r') (c : Option Float) :
    b.secondaryWeight base pd r c ≤ b.secondaryWeight base pd r' c :=
  secondaryWeight_mono hmax₀ hmax₁ (unitReliability_mono h (lt_infinity_of_isFinite hr'))
    (correlationFactor_inUnit c).refl (agreementFactor_inUnit base pd).refl

theorem secondaryWeight_mono_correlation (base pd r : Float) {c c' : Float}
    (hc : c.isFinite = true) (hc' : c'.isFinite = true) (h : c ≤ c') :
    b.secondaryWeight base pd r (some c) ≤ b.secondaryWeight base pd r (some c') :=
  secondaryWeight_mono hmax₀ hmax₁ (unitReliability_inUnit r).refl
    (correlationFactor_mono hc hc' h) (agreementFactor_inUnit base pd).refl

theorem secondaryWeight_none_le (base pd r : Float) (c : Option Float) :
    b.secondaryWeight base pd r none ≤ b.secondaryWeight base pd r c :=
  secondaryWeight_mono hmax₀ hmax₁ (unitReliability_inUnit r).refl (correlationFactor_mem c).1
    (agreementFactor_inUnit base pd).refl

theorem secondaryWeight_anti_disagreement {base pd base' pd' : Float}
    (hb : base.isFinite = true) (hp : pd.isFinite = true) (hb' : base'.isFinite = true)
    (hp' : pd'.isFinite = true)
    (h : |exactValue base - exactValue pd| ≤ |exactValue base' - exactValue pd'|)
    (r : Float) (c : Option Float) :
    b.secondaryWeight base' pd' r c ≤ b.secondaryWeight base pd r c :=
  secondaryWeight_mono hmax₀ hmax₁ (unitReliability_inUnit r).refl
    (correlationFactor_inUnit c).refl (agreementFactor_anti hb hp hb' hp' h)

end Weight

theorem secondaryWeight_of_not_pos (b : Blender) (base pd r : Float) {c : Float}
    (h : c.isFinite = false ∨ c ≤ 0.0) :
    b.secondaryWeight base pd r (some c) = b.secondaryWeight base pd r none := by
  have hnot : ¬(c.isFinite = true ∧ 0.0 < c) := by
    rintro ⟨hfin, hpos⟩
    rcases h with h | h
    · rw [hfin] at h
      cases h
    · exact FloatOrder.lt_irrefl _ (FloatOrder.lt_of_lt_of_le hpos h)
  rw [secondaryWeight_eq, secondaryWeight_eq, correlationFactor_of_not_pos hnot]
  rfl

/-- The blend of a win rate with a finite secondary estimate, read in exact arithmetic: both are
first kept in `[0, 1]` and the secondary weight is computed as the program does, then the mix and
the clamp into the bounds are taken on rationals. -/
def exactBlend (b : Blender) (base pd reliability : Float) (correlation : Option Float) : ℚ :=
  let base := clampTo base 0.0 1.0
  let pd := clampTo pd 0.0 1.0
  let w := exactValue (b.secondaryWeight base pd reliability correlation)
  max (exactValue b.bounds.lower)
    (min ((1 - w) * exactValue base + w * exactValue pd) (exactValue b.bounds.upper))

section Closer

variable {b : Blender} (hmax₀ : 0.0 ≤ b.maxSecondaryWeight) (hmax₁ : b.maxSecondaryWeight ≤ 0.5)

include hmax₀ hmax₁ in
theorem exactValue_secondaryWeight_le (base pd reliability : Float)
    (correlation : Option Float) :
    0 ≤ exactValue (b.secondaryWeight base pd reliability correlation) ∧
      exactValue (b.secondaryWeight base pd reliability correlation) ≤ 1 / 2 := by
  have hM := maxSecondaryWeight_isFinite hmax₀ hmax₁
  obtain ⟨hw₀, hw₁⟩ := secondaryWeight_mem hmax₀ hmax₁ base pd reliability correlation
  have hw := isFinite_of_le_of_le hw₀ hw₁ rfl hM
  exact ⟨exactValue_nonneg hw hw₀, by
    simpa using (exactValue_le_of_le hw₁ hw hM).trans (exactValue_le_of_le hmax₁ hM rfl)⟩

include hmax₀ hmax₁ in
/-- With bounds within `[0, 1]` and a win rate within the bounds, the blend read in exact
arithmetic is no farther from the win rate than from the secondary estimate. -/
theorem exactBlend_closer_to_base (hlo : 0.0 ≤ b.bounds.lower) (hhi : b.bounds.upper ≤ 1.0)
    {base pd : Float} (hb₁ : b.bounds.lower ≤ base) (hb₂ : base ≤ b.bounds.upper)
    (hpd : pd.isFinite = true) (reliability : Float) (correlation : Option Float) :
    |b.exactBlend base pd reliability correlation - exactValue base| ≤
      |exactValue pd - b.exactBlend base pd reliability correlation| := by
  have hbase₀ : 0.0 ≤ base := FloatOrder.le_trans hlo hb₁
  have hbase₁ : base ≤ 1.0 := FloatOrder.le_trans hb₂ hhi
  have hbase : base.isFinite = true := isFinite_of_le_of_le hbase₀ hbase₁ rfl rfl
  have hL : b.bounds.lower.isFinite = true :=
    isFinite_of_le_of_le hlo (FloatOrder.le_trans hb₁ hbase₁) rfl rfl
  have hU : b.bounds.upper.isFinite = true :=
    isFinite_of_le_of_le (FloatOrder.le_trans hbase₀ hb₂) hhi rfl rfl
  have hkeep : clampTo base 0.0 1.0 = base := clampTo_of_mem hbase₀ hbase₁
  have hpdInUnit : InUnit (clampTo pd 0.0 1.0) :=
    clampTo_mem (isNaN_eq_false_of_isFinite hpd) (by decide)
  have hP : exactValue (clampTo pd 0.0 1.0) = max 0 (min (exactValue pd) 1) := by
    rw [← extendedValue_of_isFinite hpdInUnit.isFinite,
      extendedValue_clampTo (isNaN_eq_false_of_isFinite hpd) (by decide),
      extendedValue_of_isFinite hpd, extendedValue_zero, extendedValue_one]
  have hLB := exactValue_le_of_le hb₁ hL hbase
  have hBU := exactValue_le_of_le hb₂ hbase hU
  have hL₀ := exactValue_nonneg hL hlo
  have hU₁ := exactValue_le_one hU hhi
  obtain ⟨hw₀, hw₁⟩ := exactValue_secondaryWeight_le hmax₀ hmax₁ base (clampTo pd 0.0 1.0)
    reliability correlation
  simp only [exactBlend, hkeep]
  rw [hP]
  refine (clamped_mix_closer hLB hBU hw₀ hw₁).trans (abs_unitClamp_sub_le ?_ ?_)
  · -- the blend lies within the bounds, so within `[0, 1]`
    exact le_max_of_le_left hL₀
  · exact max_le (hLB.trans (hBU.trans hU₁)) ((min_le_right _ _).trans hU₁)

end Closer

/-- The secondary estimate never dominates. For a maximum weight in `[0, 0.5]`:
* the weight lies in `[0, maxSecondaryWeight]` for every input, not-a-numbers and infinities
  included;
* it does not fall as a finite reliability grows, nor as a finite correlation grows, and no
  correlation, or one that is not positive or not finite, gives the least;
* it does not grow as finite estimates move apart in exact arithmetic;
* under bounds within `[0, 1]`, for a win rate within the bounds and a finite secondary estimate,
  the blend read in exact arithmetic is no farther from the win rate than from the secondary
  estimate. -/
theorem secondaryWeight_never_dominates (b : Blender) (hmax₀ : 0.0 ≤ b.maxSecondaryWeight)
    (hmax₁ : b.maxSecondaryWeight ≤ 0.5) :
    (∀ base pd r c, 0.0 ≤ b.secondaryWeight base pd r c ∧
      b.secondaryWeight base pd r c ≤ b.maxSecondaryWeight) ∧
    (∀ base pd r r' c, r'.isFinite = true → r ≤ r' →
      b.secondaryWeight base pd r c ≤ b.secondaryWeight base pd r' c) ∧
    (∀ base pd r c c', c.isFinite = true → c'.isFinite = true → c ≤ c' →
      b.secondaryWeight base pd r (some c) ≤ b.secondaryWeight base pd r (some c')) ∧
    (∀ base pd r c, c.isFinite = false ∨ c ≤ 0.0 →
      b.secondaryWeight base pd r (some c) = b.secondaryWeight base pd r none) ∧
    (∀ base pd r c, b.secondaryWeight base pd r none ≤ b.secondaryWeight base pd r c) ∧
    (∀ base pd base' pd' r c, base.isFinite = true → pd.isFinite = true →
      base'.isFinite = true → pd'.isFinite = true →
      |exactValue base - exactValue pd| ≤ |exactValue base' - exactValue pd'| →
      b.secondaryWeight base' pd' r c ≤ b.secondaryWeight base pd r c) ∧
    (∀ base pd r c, 0.0 ≤ b.bounds.lower → b.bounds.upper ≤ 1.0 → b.bounds.lower ≤ base →
      base ≤ b.bounds.upper → pd.isFinite = true →
      |b.exactBlend base pd r c - exactValue base| ≤ |exactValue pd - b.exactBlend base pd r c|) :=
  ⟨secondaryWeight_mem hmax₀ hmax₁,
    fun base pd _ _ c hr' h => secondaryWeight_mono_reliability hmax₀ hmax₁ base pd hr' h c,
    fun base pd r _ _ hc hc' h => secondaryWeight_mono_correlation hmax₀ hmax₁ base pd r hc hc' h,
    fun base pd r _ h => b.secondaryWeight_of_not_pos base pd r h,
    secondaryWeight_none_le hmax₀ hmax₁,
    fun _ _ _ _ r c hb hp hb' hp' h =>
      secondaryWeight_anti_disagreement hmax₀ hmax₁ hb hp hb' hp' h r c,
    fun _ _ r c hlo hhi hb₁ hb₂ hpd =>
      exactBlend_closer_to_base hmax₀ hmax₁ hlo hhi hb₁ hb₂ hpd r c⟩

end Blender

/-- The scoring blender's maximum weight is one half, and its weight of a win rate `0.7`
against a secondary estimate `0.6` lies in `[0, 0.5]`. -/
theorem secondaryWeight_never_dominates_of_scoring :
    (0.0 ≤ Blender.scoring.maxSecondaryWeight ∧ Blender.scoring.maxSecondaryWeight ≤ 0.5) ∧
      0.0 ≤ Blender.scoring.secondaryWeight 0.7 0.6 0.8 (some 0.5) ∧
      Blender.scoring.secondaryWeight 0.7 0.6 0.8 (some 0.5) ≤ 0.5 :=
  ⟨⟨by decide, by decide⟩,
    (Blender.secondaryWeight_never_dominates Blender.scoring (by decide) (by decide)).1
      0.7 0.6 0.8 (some 0.5)⟩

/-- Under bounds reaching below zero the clamp of the win rate into `[0, 1]` moves the win rate
itself: with bounds `[-1, 1]`, a win rate of `-1` and a secondary estimate of `0.5` blend to `0`,
on doubles as in exact arithmetic, which is nearer the secondary estimate than the win rate. -/
theorem blend_moves_base_below_zero :
    (⟨⟨-1.0, 1.0⟩, 0.5⟩ : Blender).blend (-1.0) (some 0.5) 1.0 none = .ok 0.0 ∧
      (⟨⟨-1.0, 1.0⟩, 0.5⟩ : Blender).exactBlend (-1.0) 0.5 1.0 none = 0 ∧
      |exactValue 0.5 - 0| < |0 - exactValue (-1.0)| := by
  have hneg : exactValue (-1.0) = -1 := by
    rw [exactValue, show (-1.0 : Float).toModel.unpack =
      .finite .negative (2 ^ 52) (-52) (by norm_num) from rfl, unpackedValue_negative]
    norm_num
  have hbase : clampTo (-1.0) 0.0 1.0 = 0.0 := rfl
  have hpd : clampTo 0.5 0.0 1.0 = 0.5 := rfl
  have hw : (⟨⟨-1.0, 1.0⟩, 0.5⟩ : Blender).secondaryWeight 0.0 0.5 1.0 none = 0.0 := rfl
  refine ⟨rfl, ?_, ?_⟩
  · simp only [Blender.exactBlend, hbase, hpd, hw, exactValue_zero, exactValue_one,
      exactValue_half, hneg]
    norm_num
  · rw [exactValue_half, hneg]
    norm_num

end DoublesLineup
