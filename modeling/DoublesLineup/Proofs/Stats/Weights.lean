import Mathlib.Data.List.Forall2
import DoublesLineup.Proofs.Numeric.Extended
/-! # Normalised weights form a probability vector

`normaliseWeights` cleans the weights (a negative or not finite one counts as zero), divides them
by the largest, sums the quotients from the left and scales them by one over that sum. When no
weight is positive every entry is one over their number instead.

Whatever the doubles, the entries are finite and in `[0, 1]`. When some weight is a finite
positive number, a cleared weight gives exactly `0.0`, each entry is within `(n + 2)² u` of the
weight's share of the total, `u = 2 ^ -53`, and the entries sum to one within `n` times that
(`normaliseWeights_is_distribution`). No step overflows: the quotients by the largest weight are
in `[0, 1]` and their float sum in `[1, n]`, so weights as large as the largest double are as
good as any.

The error bound follows the program step by step. Each quotient is one rounding of its exact
value in `[0, 1]`; the running sum of `k` of them keeps within `k² u + k η` of the exact sum and
never passes `2 ^ 53` (`PartialSum`); one over the sum, and each product with it, is one more
rounding in `[0, 1]`. What is left is an inequality of rationals (`abs_share_sub_le`).
-/

namespace DoublesLineup

open Float.Model UnpackedFloat Nearest Rounded Extended

/-! ### Cleaning -/

/-- The weight a double stands for: its value when it is a finite positive number, and nothing
otherwise. -/
def weightValue (x : Float) : ℚ := if x.isFinite = true ∧ 0.0 < x then exactValue x else 0

/-- The total of the weights. -/
def totalWeight (w : List Float) : ℚ := (w.map weightValue).sum

theorem cleanWeight_of_cleared {x : Float} (h : x.isFinite = false ∨ x < 0.0) :
    cleanWeight x = 0.0 := by
  unfold cleanWeight
  rw [if_pos]
  rcases h with h | h
  · simp [h]
  · simp [h]

theorem cleanWeight_of_kept {x : Float} (hx : x.isFinite = true) (h : ¬x < 0.0) :
    cleanWeight x = x := by
  unfold cleanWeight
  rw [if_neg (by simp [hx, h])]

theorem weightValue_of_cleared {x : Float} (h : x.isFinite = false ∨ x < 0.0) :
    weightValue x = 0 := by
  unfold weightValue
  rw [if_neg]
  rintro ⟨hx, hpos⟩
  rcases h with h | h
  · rw [hx] at h
    cases h
  · rw [lt_iff_exactValue hx rfl, exactValue_zero] at h
    rw [lt_iff_exactValue rfl hx, exactValue_zero] at hpos
    linarith

theorem weightValue_of_kept {x : Float} (hx : x.isFinite = true) (h : ¬x < 0.0) :
    0 ≤ exactValue x ∧ weightValue x = exactValue x := by
  rw [lt_iff_exactValue hx rfl, exactValue_zero, not_lt] at h
  refine ⟨h, ?_⟩
  unfold weightValue
  by_cases hpos : 0.0 < x
  · rw [if_pos ⟨hx, hpos⟩]
  · rw [if_neg (fun h => hpos h.2)]
    rw [lt_iff_exactValue rfl hx, exactValue_zero] at hpos
    exact le_antisymm h (not_lt.mp hpos)

theorem cleanWeight_spec (x : Float) :
    (cleanWeight x).isFinite = true ∧ 0 ≤ exactValue (cleanWeight x) ∧
      exactValue (cleanWeight x) = weightValue x := by
  by_cases hkept : x.isFinite = true ∧ ¬x < 0.0
  · obtain ⟨hx, hneg⟩ := hkept
    obtain ⟨hv₀, hv⟩ := weightValue_of_kept hx hneg
    rw [cleanWeight_of_kept hx hneg]
    exact ⟨hx, hv₀, hv.symm⟩
  · have hcleared : x.isFinite = false ∨ x < 0.0 := by
      cases hx : x.isFinite
      · exact .inl rfl
      · exact .inr (not_not.mp fun h => hkept ⟨hx, h⟩)
    rw [cleanWeight_of_cleared hcleared, weightValue_of_cleared hcleared]
    exact ⟨rfl, le_rfl, rfl⟩

theorem weightValue_pos_iff (x : Float) : 0 < weightValue x ↔ x.isFinite = true ∧ 0.0 < x := by
  unfold weightValue
  constructor
  · intro h
    by_contra hnot
    rw [if_neg hnot] at h
    exact lt_irrefl 0 h
  · intro h
    rw [if_pos h]
    simpa using (lt_iff_exactValue rfl h.1).mp h.2

/-! ### The largest weight -/

/-- The largest cleaned weight, `0.0` when there is none: what `normaliseWeights` divides by. -/
def largestWeight (w : List Float) : Float := (w.map cleanWeight).foldl maxNum 0.0

theorem foldl_maxNum_mem : ∀ (l : List Float) (a : Float),
    l.foldl maxNum a = a ∨ l.foldl maxNum a ∈ l
  | [], _ => .inl rfl
  | c :: l, a => by
    rw [List.foldl_cons]
    rcases foldl_maxNum_mem l (maxNum a c) with h | h
    · rcases maxNum_eq_or a c with h' | h'
      · exact .inl (h.trans h')
      · exact .inr (by rw [h, h']; exact List.mem_cons_self)
    · exact .inr (List.mem_cons_of_mem c h)

theorem le_foldl_maxNum : ∀ (l : List Float) (a : Float), a.isNaN = false →
    (∀ c ∈ l, c.isNaN = false) →
    (l.foldl maxNum a).isNaN = false ∧ extendedValue a ≤ extendedValue (l.foldl maxNum a) ∧
      ∀ c ∈ l, extendedValue c ≤ extendedValue (l.foldl maxNum a)
  | [], a, ha, _ => ⟨ha, le_rfl, by simp⟩
  | c :: l, a, ha, hl => by
    rw [List.foldl_cons]
    obtain ⟨hn, hv⟩ := extendedValue_maxNum ha (hl c List.mem_cons_self)
    obtain ⟨hfold, hstart, hrest⟩ :=
      le_foldl_maxNum l (maxNum a c) hn (fun d hd => hl d (List.mem_cons_of_mem c hd))
    rw [hv] at hstart
    refine ⟨hfold, (le_max_left _ _).trans hstart, ?_⟩
    intro d hd
    rcases List.mem_cons.mp hd with rfl | hd
    · exact (le_max_right _ _).trans hstart
    · exact hrest d hd

section Largest

variable (w : List Float)

theorem largestWeight_isFinite : (largestWeight w).isFinite = true := by
  rcases foldl_maxNum_mem (w.map cleanWeight) 0.0 with h | h
  · rw [largestWeight, h]
    rfl
  · obtain ⟨x, -, hx⟩ := List.mem_map.mp h
    rw [largestWeight, ← hx]
    exact (cleanWeight_spec x).1

theorem le_largestWeight :
    0 ≤ exactValue (largestWeight w) ∧ ∀ x ∈ w, weightValue x ≤ exactValue (largestWeight w) := by
  have hclean : ∀ c ∈ w.map cleanWeight, c.isNaN = false := by
    intro c hc
    obtain ⟨x, -, rfl⟩ := List.mem_map.mp hc
    exact isNaN_eq_false_of_isFinite (cleanWeight_spec x).1
  obtain ⟨-, hzero, hall⟩ := le_foldl_maxNum _ 0.0 rfl hclean
  have hM := largestWeight_isFinite w
  rw [← extendedValue_of_isFinite hM]
  refine ⟨by simpa [largestWeight] using hzero, fun x hx => ?_⟩
  have hle := hall (cleanWeight x) (List.mem_map_of_mem hx)
  rwa [extendedValue_of_isFinite (cleanWeight_spec x).1, (cleanWeight_spec x).2.2] at hle

theorem largestWeight_pos_iff :
    0.0 < largestWeight w ↔ ∃ x ∈ w, x.isFinite = true ∧ 0.0 < x := by
  have hM := largestWeight_isFinite w
  rw [lt_iff_exactValue rfl hM, exactValue_zero]
  constructor
  · intro hpos
    rcases foldl_maxNum_mem (w.map cleanWeight) 0.0 with h | h
    · rw [largestWeight, h, exactValue_zero] at hpos
      exact absurd hpos (lt_irrefl 0)
    · obtain ⟨x, hx, hclean⟩ := List.mem_map.mp h
      refine ⟨x, hx, (weightValue_pos_iff x).mp ?_⟩
      rwa [← (cleanWeight_spec x).2.2, hclean]
  · rintro ⟨x, hx, hpos⟩
    exact ((weightValue_pos_iff x).mpr hpos).trans_le ((le_largestWeight w).2 x hx)

theorem exists_weightValue_eq_largest (h : 0.0 < largestWeight w) :
    ∃ x ∈ w, weightValue x = exactValue (largestWeight w) := by
  rcases foldl_maxNum_mem (w.map cleanWeight) 0.0 with hfold | hfold
  · rw [largestWeight, hfold] at h
    exact absurd h (by decide)
  · obtain ⟨x, hx, hclean⟩ := List.mem_map.mp hfold
    exact ⟨x, hx, by rw [← (cleanWeight_spec x).2.2, hclean, largestWeight]⟩

end Largest

/-! ### Running sums of numbers in `[0, 1]` -/

/-- What a running sum of `k` numbers in `[0, 1]` keeps: it is a finite double between zero and
both `k` and `2 ^ 53`, within `k² u + k η` of the exact sum `σ`. Past `2 ^ 53` the doubles are
two apart, and adding at most one rounds back down. -/
structure PartialSum (s : Float) (k : ℕ) (σ : ℚ) : Prop where
  isFinite : s.isFinite = true
  nonneg : 0 ≤ exactValue s
  le_count : exactValue s ≤ k
  le_top : exactValue s ≤ 2 ^ 53
  error : |exactValue s - σ| ≤ k ^ 2 * unitRoundoff + k * underflowError

theorem partialSum_start : PartialSum (-0.0) 0 0 :=
  ⟨rfl, by simp, by simp, by simp, by simp⟩

/-- Adding a number in `[0, 1]` keeps a running sum's bounds, with one more rounding error, and
the sum grows past both parts. -/
theorem PartialSum.add {s a : Float} {k : ℕ} {σ : ℚ} (hs : PartialSum s k σ)
    (ha : a.isFinite = true) (ha₀ : 0 ≤ exactValue a) (ha₁ : exactValue a ≤ 1) :
    PartialSum (s + a) (k + 1) (σ + exactValue a) ∧ exactValue s ≤ exactValue (s + a) ∧
      exactValue a ≤ exactValue (s + a) := by
  have hnear := IsNearest.add hs.isFinite ha
  have hq₀ : 0 ≤ exactValue s + exactValue a := add_nonneg hs.nonneg ha₀
  have hq₁ : exactValue s + exactValue a ≤ 2 ^ 53 + 1 := add_le_add hs.le_top ha₁
  have hq : |exactValue s + exactValue a| ≤ 2 ^ 1023 := by
    have h54 : (2 : ℚ) ^ 53 + 1 ≤ 2 ^ 54 := by norm_num
    rw [abs_of_nonneg hq₀]
    exact hq₁.trans (h54.trans (pow_le_pow_right₀ (by norm_num) (by norm_num)))
  obtain ⟨hfin, hval⟩ := hnear.exactValue_eq hq
  have hs_le : exactValue s ≤ exactValue (s + a) := calc
    exactValue s = roundNearest (exactValue s) := (roundNearest_exactValue hs.isFinite).symm
    _ ≤ roundNearest (exactValue s + exactValue a) := roundNearest_mono (by linarith)
    _ = exactValue (s + a) := hval.symm
  have ha_le : exactValue a ≤ exactValue (s + a) := calc
    exactValue a = roundNearest (exactValue a) := (roundNearest_exactValue ha).symm
    _ ≤ roundNearest (exactValue s + exactValue a) := roundNearest_mono (by linarith [hs.nonneg])
    _ = exactValue (s + a) := hval.symm
  have hsum : exactValue s + exactValue a ≤ k + 1 := by linarith [hs.le_count]
  have hcap := roundNearest_le_succ hsum hq₁
  rw [← hval] at hcap
  have herr : |exactValue (s + a) - (σ + exactValue a)| ≤
      (k + 1 : ℕ) ^ 2 * unitRoundoff + (k + 1 : ℕ) * underflowError := by
    have hround := hnear.abs_sub_le hq
    rw [abs_of_nonneg hq₀] at hround
    have hu := unitRoundoff_pos
    have hη := underflowError_pos
    have hk : (0 : ℚ) ≤ k := Nat.cast_nonneg k
    calc |exactValue (s + a) - (σ + exactValue a)|
        = |(exactValue (s + a) - (exactValue s + exactValue a)) + (exactValue s - σ)| := by
          ring_nf
      _ ≤ |exactValue (s + a) - (exactValue s + exactValue a)| + |exactValue s - σ| :=
          abs_add_le _ _
      _ ≤ ((k + 1) * unitRoundoff + underflowError) +
            (k ^ 2 * unitRoundoff + k * underflowError) := by
          gcongr
          · exact hround.trans (by gcongr)
          · exact hs.error
      _ ≤ (k + 1 : ℕ) ^ 2 * unitRoundoff + (k + 1 : ℕ) * underflowError := by
          push_cast
          nlinarith
  exact ⟨⟨hfin, hs.nonneg.trans hs_le, by push_cast; exact hcap.1, hcap.2, herr⟩, hs_le, ha_le⟩

theorem PartialSum.foldl : ∀ (l : List Float) {s : Float} {k : ℕ} {σ : ℚ}, PartialSum s k σ →
    (∀ a ∈ l, a.isFinite = true ∧ 0 ≤ exactValue a ∧ exactValue a ≤ 1) →
    PartialSum (l.foldl (· + ·) s) (k + l.length) (σ + (l.map exactValue).sum) ∧
      exactValue s ≤ exactValue (l.foldl (· + ·) s) ∧
      ∀ a ∈ l, exactValue a ≤ exactValue (l.foldl (· + ·) s)
  | [], s, k, σ, hs, _ => ⟨by simpa using hs, le_rfl, by simp⟩
  | a :: l, s, k, σ, hs, hl => by
    obtain ⟨ha, ha₀, ha₁⟩ := hl a List.mem_cons_self
    obtain ⟨hstep, hs_le, ha_le⟩ := hs.add ha ha₀ ha₁
    obtain ⟨hrun, hgrow, hrest⟩ :=
      PartialSum.foldl l hstep (fun b hb => hl b (List.mem_cons_of_mem a hb))
    rw [List.foldl_cons]
    refine ⟨?_, hs_le.trans hgrow, ?_⟩
    · rw [List.length_cons, List.map_cons, List.sum_cons,
        show k + (l.length + 1) = k + 1 + l.length by omega, ← add_assoc]
      exact hrun
    · intro b hb
      rcases List.mem_cons.mp hb with rfl | hb
      · exact ha_le.trans hgrow
      · exact hrest b hb

/-! ### Scaling by the largest weight -/

/-- The cleaned weights over the largest one: what `normaliseWeights` sums when some weight is
positive. -/
def scaledWeights (w : List Float) : List Float := (w.map cleanWeight).map (· / largestWeight w)

section Positive

variable {w : List Float} (hpos : 0.0 < largestWeight w)
include hpos

theorem exactValue_largestWeight_pos : 0 < exactValue (largestWeight w) := by
  simpa using (lt_iff_exactValue rfl (largestWeight_isFinite w)).mp hpos

theorem normaliseWeights_of_pos :
    normaliseWeights w = (Sample.normalise (scaledWeights w) 1.0).2 := by
  have h : (w.map cleanWeight).foldl maxNum 0.0 > 0.0 := hpos
  unfold normaliseWeights
  rw [if_pos h]
  rfl

theorem isNearest_scaled (x : Float) :
    IsNearest (cleanWeight x / largestWeight w) (weightValue x / exactValue (largestWeight w)) := by
  have hdiv := IsNearest.div (cleanWeight_spec x).1 (largestWeight_isFinite w)
    (exactValue_largestWeight_pos hpos).ne'
  rwa [(cleanWeight_spec x).2.2] at hdiv

theorem share_mem {x : Float} (hx : x ∈ w) :
    0 ≤ weightValue x / exactValue (largestWeight w) ∧
      weightValue x / exactValue (largestWeight w) ≤ 1 := by
  have hM := exactValue_largestWeight_pos hpos
  have hx₀ : 0 ≤ weightValue x := (cleanWeight_spec x).2.2 ▸ (cleanWeight_spec x).2.1
  exact ⟨div_nonneg hx₀ hM.le, (div_le_one hM).mpr ((le_largestWeight w).2 x hx)⟩

theorem scaledWeights_unit :
    ∀ a ∈ scaledWeights w, a.isFinite = true ∧ 0 ≤ exactValue a ∧ exactValue a ≤ 1 := by
  intro a ha
  obtain ⟨c, hc, rfl⟩ := List.mem_map.mp ha
  obtain ⟨x, hx, rfl⟩ := List.mem_map.mp hc
  obtain ⟨hfin, h₀, h₁, -⟩ := (isNearest_scaled hpos x).unit (share_mem hpos hx).1
    (share_mem hpos hx).2
  exact ⟨hfin, h₀, h₁⟩

theorem sum_scaledWeights :
    PartialSum (Sample.sum (scaledWeights w)) w.length ((scaledWeights w).map exactValue).sum ∧
      1 ≤ exactValue (Sample.sum (scaledWeights w)) := by
  obtain ⟨hrun, -, hle⟩ := PartialSum.foldl (scaledWeights w) partialSum_start
    (scaledWeights_unit hpos)
  have hlen : (scaledWeights w).length = w.length := by simp [scaledWeights]
  rw [zero_add, zero_add, hlen] at hrun
  refine ⟨hrun, ?_⟩
  obtain ⟨x, hx, hlargest⟩ := exists_weightValue_eq_largest w hpos
  have hone := (isNearest_scaled hpos x).exactValue_eq (by
    rw [hlargest, div_self (exactValue_largestWeight_pos hpos).ne', abs_one]
    exact one_le_pow₀ (by norm_num))
  rw [hlargest, div_self (exactValue_largestWeight_pos hpos).ne', roundNearest_one] at hone
  rw [← hone.2]
  exact hle _ (List.mem_map_of_mem (List.mem_map_of_mem hx))

end Positive

/-! ### Adding up the errors -/

theorem abs_sum_map_sub_le {α : Type} (f g : α → ℚ) {δ : ℚ} :
    ∀ l : List α, (∀ x ∈ l, |f x - g x| ≤ δ) →
      |(l.map f).sum - (l.map g).sum| ≤ l.length * δ
  | [], _ => by simp
  | x :: l, h => by
    have hx := h x List.mem_cons_self
    have hl := abs_sum_map_sub_le f g l fun y hy => h y (List.mem_cons_of_mem x hy)
    simp only [List.map_cons, List.sum_cons, List.length_cons]
    calc |f x + (l.map f).sum - (g x + (l.map g).sum)|
        = |(f x - g x) + ((l.map f).sum - (l.map g).sum)| := by
          congr 1
          ring
      _ ≤ |f x - g x| + |(l.map f).sum - (l.map g).sum| := abs_add_le _ _
      _ ≤ ((l.length + 1 : ℕ) : ℚ) * δ := by push_cast; linarith

/-- A share `α / A` computed as `o`: `α` rounded to `a`, the total `A` summed to `S`, one over `S`
rounded to `f` and `a * f` rounded to `o`, each rounding within `ε`, the sum within `D`. -/
theorem abs_share_sub_le {α a A S f o ε D : ℚ} (hα₀ : 0 ≤ α) (hα₁ : α ≤ 1) (ha : |a - α| ≤ ε)
    (hA : 1 ≤ A) (hS : 1 ≤ S) (hSA : |S - A| ≤ D) (hf₀ : 0 ≤ f) (hf₁ : f ≤ 1)
    (hf : |f - 1 / S| ≤ ε) (ho : |o - a * f| ≤ ε) : |o - α / A| ≤ 3 * ε + D := by
  have hε : 0 ≤ ε := (abs_nonneg _).trans ha
  have h₁ : |a * f - α * f| ≤ ε := by
    rw [← sub_mul, abs_mul, abs_of_nonneg hf₀]
    exact (mul_le_of_le_one_right (abs_nonneg _) hf₁).trans ha
  have h₂ : |α * f - α / S| ≤ ε := by
    rw [div_eq_mul_one_div α S, ← mul_sub, abs_mul, abs_of_nonneg hα₀]
    exact (mul_le_of_le_one_left (abs_nonneg _) hα₁).trans hf
  have h₃ : |α / S - α / A| ≤ D := by
    have hSA₀ : 0 < S * A := by positivity
    have hsplit : α / S - α / A = α * (A - S) / (S * A) := by
      rw [div_sub_div _ _ (by positivity) (by positivity)]
      ring
    rw [hsplit, abs_div, abs_mul, abs_of_nonneg hα₀, abs_of_pos hSA₀, abs_sub_comm A S,
      div_le_iff₀ hSA₀]
    calc α * |S - A| ≤ 1 * |S - A| := mul_le_mul_of_nonneg_right hα₁ (abs_nonneg _)
      _ ≤ D * 1 := by rw [one_mul, mul_one]; exact hSA
      _ ≤ D * (S * A) := mul_le_mul_of_nonneg_left (by nlinarith) ((abs_nonneg _).trans hSA)
  calc |o - α / A| = |(o - a * f) + (a * f - α * f) + (α * f - α / S) + (α / S - α / A)| := by
        congr 1
        ring
    _ ≤ |o - a * f| + |a * f - α * f| + |α * f - α / S| + |α / S - α / A| := by
        have h₁₂ := abs_add_le (o - a * f) (a * f - α * f)
        have h₁₂₃ := abs_add_le ((o - a * f) + (a * f - α * f)) (α * f - α / S)
        have h₁₂₃₄ := abs_add_le ((o - a * f) + (a * f - α * f) + (α * f - α / S)) (α / S - α / A)
        linarith
    _ ≤ ε + ε + ε + D := by gcongr
    _ = 3 * ε + D := by ring

theorem error_budget (n : ℕ) :
    3 * (unitRoundoff + underflowError) +
        (n ^ 2 * unitRoundoff + n * underflowError + n * (unitRoundoff + underflowError)) ≤
      (n + 2) ^ 2 * unitRoundoff := by
  have hη := underflowError_pos
  have hn : (0 : ℚ) ≤ n := Nat.cast_nonneg n
  have hbig : (4 : ℚ) ≤ 2 ^ 1022 := by
    calc (4 : ℚ) = 2 ^ 2 := by norm_num
      _ ≤ 2 ^ 1022 := pow_le_pow_right₀ (by norm_num) (by norm_num)
  rw [← two_pow_mul_underflowError]
  generalize (2 : ℚ) ^ 1022 = c at hbig ⊢
  nlinarith [mul_le_mul_of_nonneg_right hbig hη.le,
    mul_le_mul_of_nonneg_right hbig (mul_nonneg hn hη.le)]

/-! ### The entries -/

theorem unpack_of_exactValue_pos {x : Float} (hx : x.isFinite = true) (h : 0 < exactValue x) :
    ∃ m e hm, x.toModel.unpack = .finite .positive m e hm := by
  unfold exactValue at h
  change x.toModel.unpack.isFinite = true at hx
  rcases hu : x.toModel.unpack with s | _ | s | ⟨_ | _, m, e, hm⟩ <;> rw [hu] at hx h
  · cases hx
  · cases hx
  · simp [unpackedValue] at h
  · have hneg : unpackedValue (.finite .negative m e hm) < 0 := by
      simp only [unpackedValue, Sign.apply, Int.cast_neg, Int.cast_natCast, neg_mul,
        neg_neg_iff_pos]
      positivity
    exact absurd h (not_lt.mpr hneg.le)
  · exact ⟨m, e, hm, rfl⟩

theorem zero_div_mul_eq_zero {M f : Float} (hM : M.isFinite = true) (hM₀ : 0 < exactValue M)
    (hf : f.isFinite = true) (hf₀ : 0 < exactValue f) : 0.0 / M * f = 0.0 := by
  obtain ⟨m, e, hm, hMu⟩ := unpack_of_exactValue_pos hM hM₀
  obtain ⟨m', e', hm', hfu⟩ := unpack_of_exactValue_pos hf hf₀
  have hdiv : (0.0 / M).toModel.unpack = .zero .positive := by
    show UnpackedFloat.unpack .binary64 (UnpackedFloat.pack .binary64
      (UnpackedFloat.div .binary64 (0.0 : Float).toModel.unpack M.toModel.unpack)) = _
    rw [hMu]
    exact unpack_pack_zero _
  show Float.ofModel (Float.Model.pack
    (UnpackedFloat.mul .binary64 (0.0 / M).toModel.unpack f.toModel.unpack)) = 0.0
  rw [hdiv, hfu]
  rfl

/-- The entry `normaliseWeights` gives a weight when some weight is positive: the weight over the
largest, times one over the float sum of all of them so scaled. -/
def normalisedEntry (w : List Float) (x : Float) : Float :=
  cleanWeight x / largestWeight w * (1.0 / Sample.sum (scaledWeights w))

section Entries

variable {w : List Float} (hpos : 0.0 < largestWeight w)
include hpos

theorem normaliseWeights_eq_map : normaliseWeights w = w.map (normalisedEntry w) := by
  rw [normaliseWeights_of_pos hpos]
  show (scaledWeights w).map (· * (1.0 / Sample.sum (scaledWeights w))) =
    w.map fun x => cleanWeight x / largestWeight w * (1.0 / Sample.sum (scaledWeights w))
  generalize 1.0 / Sample.sum (scaledWeights w) = f
  rw [scaledWeights, List.map_map, List.map_map]
  rfl

theorem factor_spec :
    (1.0 / Sample.sum (scaledWeights w)).isFinite = true ∧
      0 < exactValue (1.0 / Sample.sum (scaledWeights w)) ∧
      exactValue (1.0 / Sample.sum (scaledWeights w)) ≤ 1 ∧
      |exactValue (1.0 / Sample.sum (scaledWeights w)) -
          1 / exactValue (Sample.sum (scaledWeights w))| ≤ unitRoundoff + underflowError := by
  obtain ⟨hS, hS₁⟩ := sum_scaledWeights hpos
  have hnear := IsNearest.div (show (1.0 : Float).isFinite = true from rfl) hS.isFinite
    (by positivity)
  rw [exactValue_one] at hnear
  have hq₁ : 1 / exactValue (Sample.sum (scaledWeights w)) ≤ 1 :=
    (div_le_one (by positivity)).mpr hS₁
  obtain ⟨hfin, -, h₁, herr⟩ := hnear.unit (by positivity) hq₁
  refine ⟨hfin, ?_, h₁, herr⟩
  -- the sum is at most `2 ^ 53`, so one over it at least `2 ^ -53`, itself a double
  have hleast : ((2 ^ 52 : ℕ) : ℚ) * 2 ^ (-105 : ℤ) = 1 / 2 ^ 53 := by
    rw [Nat.cast_pow, Nat.cast_ofNat, zpow_neg, ← zpow_natCast, ← div_eq_mul_inv,
      div_eq_div_iff (by positivity) (by positivity), one_mul, ← zpow_natCast,
      ← zpow_add₀ two_ne_zero]
    norm_num
  have htiny := roundNearest_dyadic (m := 2 ^ 52) (e := -105) (by norm_num) (by norm_num)
    (.inl le_rfl)
  rw [hleast] at htiny
  have hmin : 1 / (2 : ℚ) ^ 53 ≤ 1 / exactValue (Sample.sum (scaledWeights w)) :=
    one_div_le_one_div_of_le (by positivity) hS.le_top
  have hbig : |1 / exactValue (Sample.sum (scaledWeights w))| ≤ 2 ^ 1023 := by
    rw [abs_of_pos (by positivity)]
    exact hq₁.trans (one_le_pow₀ (by norm_num))
  rw [(hnear.exactValue_eq hbig).2]
  calc (0 : ℚ) < 1 / 2 ^ 53 := by positivity
    _ = roundNearest (1 / 2 ^ 53) := htiny.symm
    _ ≤ _ := roundNearest_mono hmin

theorem sum_shares :
    (w.map fun z => weightValue z / exactValue (largestWeight w)).sum =
        totalWeight w / exactValue (largestWeight w) ∧
      1 ≤ totalWeight w / exactValue (largestWeight w) := by
  have hM₀ := exactValue_largestWeight_pos hpos
  have hsum : (w.map fun z => weightValue z / exactValue (largestWeight w)).sum =
      totalWeight w / exactValue (largestWeight w) := by
    simp only [div_eq_mul_inv, List.sum_map_mul_right, totalWeight]
  refine ⟨hsum, ?_⟩
  have hnonneg : ∀ q ∈ w.map fun z => weightValue z / exactValue (largestWeight w), 0 ≤ q := by
    intro q hq
    obtain ⟨z, hz, rfl⟩ := List.mem_map.mp hq
    exact (share_mem hpos hz).1
  obtain ⟨x₀, hx₀, hlargest⟩ := exists_weightValue_eq_largest w hpos
  have hsingle := List.single_le_sum hnonneg _ (List.mem_map_of_mem hx₀)
  rwa [hlargest, div_self hM₀.ne', hsum] at hsingle

theorem sum_weightShares :
    0 < totalWeight w ∧ (w.map fun x => weightValue x / totalWeight w).sum = 1 := by
  obtain ⟨-, hA₁⟩ := sum_shares hpos
  have hT : 0 < totalWeight w :=
    (div_pos_iff_of_pos_right (exactValue_largestWeight_pos hpos)).mp (one_pos.trans_le hA₁)
  refine ⟨hT, ?_⟩
  rw [← div_self hT.ne']
  simp only [div_eq_mul_inv, List.sum_map_mul_right, totalWeight]

theorem abs_sum_scaledWeights_sub_le :
    |exactValue (Sample.sum (scaledWeights w)) - totalWeight w / exactValue (largestWeight w)| ≤
      w.length ^ 2 * unitRoundoff + w.length * underflowError +
        w.length * (unitRoundoff + underflowError) := by
  obtain ⟨hS, -⟩ := sum_scaledWeights hpos
  have hscaled : ((scaledWeights w).map exactValue).sum =
      (w.map fun z => exactValue (cleanWeight z / largestWeight w)).sum := by
    simp only [scaledWeights, List.map_map]
    rfl
  have hdiff := abs_sum_map_sub_le (fun z => exactValue (cleanWeight z / largestWeight w))
    (fun z => weightValue z / exactValue (largestWeight w)) w (fun z hz =>
      ((isNearest_scaled hpos z).unit (share_mem hpos hz).1 (share_mem hpos hz).2).2.2.2)
  rw [← hscaled, (sum_shares hpos).1] at hdiff
  calc _ = |(exactValue (Sample.sum (scaledWeights w)) - ((scaledWeights w).map exactValue).sum) +
        (((scaledWeights w).map exactValue).sum -
          totalWeight w / exactValue (largestWeight w))| := by
        congr 1
        ring
    _ ≤ _ := (abs_add_le _ _).trans (add_le_add hS.error hdiff)

theorem entry_spec {x : Float} (hx : x ∈ w) :
    (normalisedEntry w x).isFinite = true ∧ 0 ≤ exactValue (normalisedEntry w x) ∧
      exactValue (normalisedEntry w x) ≤ 1 ∧
      |exactValue (normalisedEntry w x) - weightValue x / totalWeight w| ≤
        (w.length + 2) ^ 2 * unitRoundoff := by
  obtain ⟨-, hS₁⟩ := sum_scaledWeights hpos
  obtain ⟨hf, hf₀, hf₁, hferr⟩ := factor_spec hpos
  obtain ⟨hα₀, hα₁⟩ := share_mem hpos hx
  obtain ⟨ha, ha₀, ha₁, haerr⟩ := (isNearest_scaled hpos x).unit hα₀ hα₁
  obtain ⟨hy, hy₀, hy₁, hyerr⟩ := (IsNearest.mul ha hf).unit (mul_nonneg ha₀ hf₀.le)
    (mul_le_one₀ ha₁ hf₀.le hf₁)
  refine ⟨hy, hy₀, hy₁, ?_⟩
  have hshare := abs_share_sub_le hα₀ hα₁ haerr (sum_shares hpos).2 hS₁
    (abs_sum_scaledWeights_sub_le hpos) hf₀.le hf₁ hferr hyerr
  rw [div_div_div_cancel_right₀ (exactValue_largestWeight_pos hpos).ne'] at hshare
  exact hshare.trans (error_budget w.length)

theorem entry_of_cleared {x : Float} (h : x.isFinite = false ∨ x < 0.0) :
    normalisedEntry w x = 0.0 := by
  obtain ⟨hf, hf₀, -⟩ := factor_spec hpos
  rw [normalisedEntry, cleanWeight_of_cleared h]
  exact zero_div_mul_eq_zero (largestWeight_isFinite w) (exactValue_largestWeight_pos hpos) hf hf₀

end Entries

/-! ### No positive weight -/

theorem normaliseWeights_of_not_pos {w : List Float} (h : ¬0.0 < largestWeight w) :
    normaliseWeights w = w.map fun _ => 1.0 / natToFloat w.length := by
  have h' : ¬(w.map cleanWeight).foldl maxNum 0.0 > 0.0 := h
  unfold normaliseWeights
  rw [if_neg h']
  cases w with
  | nil => rfl
  | cons x w => simp [List.map_map, Function.comp_def]

theorem uniform_spec {n : ℕ} (h₀ : 0 < n) (hn : n < 2 ^ 64) :
    (1.0 / natToFloat n).isFinite = true ∧ 0 ≤ exactValue (1.0 / natToFloat n) ∧
      exactValue (1.0 / natToFloat n) ≤ 1 ∧
      (n ≤ 2 ^ 53 → IsNearest (1.0 / natToFloat n) (1 / n)) := by
  have hnat := isNearest_natToFloat n
  rw [Nat.mod_eq_of_lt hn] at hnat
  have hbig : |(n : ℚ)| ≤ 2 ^ 1023 := by
    rw [abs_of_nonneg (Nat.cast_nonneg n)]
    calc (n : ℚ) ≤ 2 ^ 64 := by exact_mod_cast hn.le
      _ ≤ 2 ^ 1023 := pow_le_pow_right₀ (by norm_num) (by norm_num)
  obtain ⟨hfin, hval⟩ := hnat.exactValue_eq hbig
  have hge : 1 ≤ exactValue (natToFloat n) := by
    rw [hval, ← roundNearest_one]
    exact roundNearest_mono (by exact_mod_cast h₀)
  have hdiv := IsNearest.div (show (1.0 : Float).isFinite = true from rfl) hfin (by positivity)
  rw [exactValue_one] at hdiv
  obtain ⟨hy, hy₀, hy₁, -⟩ := hdiv.unit (by positivity) ((div_le_one (by positivity)).mpr hge)
  refine ⟨hy, hy₀, hy₁, fun hsmall => ?_⟩
  rwa [hval, roundNearest_natCast hsmall] at hdiv

theorem unit_of_exactValue {y : Float} (hy : y.isFinite = true) (h₀ : 0 ≤ exactValue y)
    (h₁ : exactValue y ≤ 1) : 0.0 ≤ y ∧ y ≤ 1.0 :=
  ⟨(le_iff_exactValue rfl hy).mpr (by simpa using h₀),
    (le_iff_exactValue hy rfl).mpr (by simpa using h₁)⟩

/-! ### The main statement -/

/-- Normalised weights form a probability vector, for any `n < 2 ^ 64` doubles: not-a-numbers,
infinities, negatives, subnormals and the largest doubles included.

* Every entry is a finite double in `[0, 1]`.
* When some weight is a finite positive number: a weight that is negative or not finite gives
  exactly `0.0`; each entry is within `(n + 2)² u` of the weight's share of the total of the
  finite positive weights; the entries sum to one within `n` times that. The weights over the
  largest lie in `[0, 1]` and their float sum in `[1, n]`, so nothing overflows.
* Otherwise every entry is one over `n`'s double: the double nearest to `1 / n` up to
  `n = 2 ^ 53`. -/
theorem normaliseWeights_is_distribution (w : List Float) (hn : w.length < 2 ^ 64) :
    (∀ y ∈ normaliseWeights w, y.isFinite = true ∧ 0.0 ≤ y ∧ y ≤ 1.0) ∧
      if ∃ x ∈ w, x.isFinite = true ∧ 0.0 < x then
        List.Forall₂ (fun x y => ((x.isFinite = false ∨ x < 0.0) → y = 0.0) ∧
            |exactValue y - weightValue x / totalWeight w| ≤ (w.length + 2) ^ 2 * unitRoundoff)
          w (normaliseWeights w) ∧
        |((normaliseWeights w).map exactValue).sum - 1| ≤
          w.length * ((w.length + 2) ^ 2 * unitRoundoff) ∧
        (∀ a ∈ scaledWeights w, 0.0 ≤ a ∧ a ≤ 1.0) ∧
        1 ≤ exactValue (Sample.sum (scaledWeights w)) ∧
        exactValue (Sample.sum (scaledWeights w)) ≤ w.length
      else
        normaliseWeights w = w.map (fun _ => 1.0 / natToFloat w.length) ∧
          (w.length ≤ 2 ^ 53 → ∀ y ∈ normaliseWeights w, IsNearest y (1 / w.length)) := by
  by_cases hex : ∃ x ∈ w, x.isFinite = true ∧ 0.0 < x
  · -- a positive weight: every entry is read off `entry_spec`
    have hpos := (largestWeight_pos_iff w).mpr hex
    rw [if_pos hex, normaliseWeights_eq_map hpos]
    obtain ⟨hS, hS₁⟩ := sum_scaledWeights hpos
    refine ⟨?_, ?_, ?_, fun a ha => ?_, hS₁, hS.le_count⟩
    · intro y hy
      obtain ⟨x, hx, rfl⟩ := List.mem_map.mp hy
      obtain ⟨hfin, h₀, h₁, -⟩ := entry_spec hpos hx
      exact ⟨hfin, unit_of_exactValue hfin h₀ h₁⟩
    · rw [List.forall₂_map_right_iff, List.forall₂_same]
      exact fun x hx => ⟨entry_of_cleared hpos, (entry_spec hpos hx).2.2.2⟩
    · -- the shares of the total sum to one
      rw [List.map_map, ← (sum_weightShares hpos).2]
      exact abs_sum_map_sub_le _ _ w fun x hx => (entry_spec hpos hx).2.2.2
    · obtain ⟨hfin, h₀, h₁⟩ := scaledWeights_unit hpos a ha
      exact unit_of_exactValue hfin h₀ h₁
  · -- no positive weight: every entry is one over the count
    have hnot : ¬0.0 < largestWeight w := fun h => hex ((largestWeight_pos_iff w).mp h)
    rw [if_neg hex, normaliseWeights_of_not_pos hnot]
    refine ⟨?_, rfl, fun hsmall y hy => ?_⟩
    · intro y hy
      obtain ⟨x, hx, rfl⟩ := List.mem_map.mp hy
      obtain ⟨hfin, h₀, h₁, -⟩ := uniform_spec (List.length_pos_of_mem hx) hn
      exact ⟨hfin, unit_of_exactValue hfin h₀ h₁⟩
    · obtain ⟨x, hx, rfl⟩ := List.mem_map.mp hy
      exact (uniform_spec (List.length_pos_of_mem hx) hn).2.2.2 hsmall

/-- The largest double, a third of it and the least subnormal, whose direct sum overflows: the
entries are finite, in `[0, 1]`, and sum to one within `75` unit roundoffs. -/
theorem normaliseWeights_is_distribution_of_largest_doubles :
    (∀ y ∈ normaliseWeights [Float.ofBits 0x7FEFFFFFFFFFFFFF,
        Float.ofBits 0x7FEFFFFFFFFFFFFF / 3.0, Float.ofBits 1],
        y.isFinite = true ∧ 0.0 ≤ y ∧ y ≤ 1.0) ∧
      |((normaliseWeights [Float.ofBits 0x7FEFFFFFFFFFFFFF,
        Float.ofBits 0x7FEFFFFFFFFFFFFF / 3.0, Float.ofBits 1]).map exactValue).sum - 1| ≤
        75 * unitRoundoff := by
  have hdist := normaliseWeights_is_distribution [Float.ofBits 0x7FEFFFFFFFFFFFFF,
    Float.ofBits 0x7FEFFFFFFFFFFFFF / 3.0, Float.ofBits 1] (by decide)
  rw [if_pos ⟨Float.ofBits 0x7FEFFFFFFFFFFFFF, List.mem_cons_self, by decide, by decide⟩]
    at hdist
  refine ⟨hdist.1, ?_⟩
  have hsum := hdist.2.2.1
  norm_num at hsum
  exact hsum.trans_eq (by ring)

end DoublesLineup
