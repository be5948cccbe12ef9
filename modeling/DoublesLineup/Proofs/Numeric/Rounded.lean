import DoublesLineup.Proofs.Numeric.Nearest
import DoublesLineup.Proofs.Numeric.Sum
import DoublesLineup.Proofs.Numeric.Value
/-! # The float model rounds to nearest

Core computes each operation on doubles in an unpacked model: the exact result as a mantissa
and an exponent, shifted right to the exponent its leading bit asks for while a round bit and a
sticky bit keep what falls off, rounded to nearest-even, shifted once more if the rounding
carried, and packed into 64 bits. This module proves that the result before packing is
`roundNearest` of the exact result (`RoundsTo`), for sums, differences, products, quotients by
a nonzero double, halvings and absolute values of finite doubles in the canonical form `unpack`
gives. One lemma carries them all: a mantissa truncated from the exact result, with round and
sticky bits for what was cut off, rounds to nearest once its exponent lies at or below the
result's last place (`roundWithAccuracy_spec`).
-/

namespace DoublesLineup.Rounded

open Float.Model UnpackedFloat Nearest FloatSum

theorem Sign.div_positive (s : Sign) : s / Sign.positive = s := by
  cases s <;> rfl

theorem Sign.apply_mul (s t : Sign) (n k : ℤ) : (s * t).apply (n * k) = s.apply n * t.apply k := by
  cases s <;> cases t <;> simp only [Sign.apply] <;> ring

/-- A rational with a sign put on it. -/
def signed : Sign → ℚ → ℚ
  | .positive, x => x
  | .negative, x => -x

theorem signed_apply (s : Sign) (n : ℤ) (q : ℚ) :
    ((s.apply n : ℤ) : ℚ) * q = signed s (n * q) := by
  cases s <;> simp [Sign.apply, signed]

theorem roundNearest_signed (s : Sign) (q : ℚ) :
    roundNearest (signed s q) = signed s (roundNearest q) := by
  cases s <;> simp [signed, roundNearest_neg]

/-! ### What the round and sticky bits keep -/

/-- The exact number `x` that an extended mantissa stands for, known up to where its remainder
lies against one half: the mantissa is `x`'s integer part, the round bit says whether the
remainder is at least a half, and the sticky bit whether it is anything besides. -/
def Represents (em : ExtendedMantissa) (x : ℚ) : Prop :=
  match em.roundBit, em.stickyBit with
  | false, false => x = em.mantissa
  | false, true => (em.mantissa : ℚ) < x ∧ x < em.mantissa + 1 / 2
  | true, false => x = em.mantissa + 1 / 2
  | true, true => (em.mantissa : ℚ) + 1 / 2 < x ∧ x < em.mantissa + 1

theorem represents_exact (m : ℕ) : Represents (.ofMantissaAndAccuracy m .exact) m := rfl

@[simp] theorem mantissa_ofMantissaAndAccuracy (m : ℕ) (acc : Accuracy) :
    (ExtendedMantissa.ofMantissaAndAccuracy m acc).mantissa = m := by
  rcases acc with _ | (_ | _ | _) <;> rfl

namespace Represents

variable {em : ExtendedMantissa} {x : ℚ}

theorem bounds (h : Represents em x) : (em.mantissa : ℚ) ≤ x ∧ x < em.mantissa + 1 := by
  obtain ⟨m, _ | _, _ | _⟩ := em <;> simp only [Represents] at h
  · constructor <;> linarith
  · constructor <;> linarith [h.1, h.2]
  · constructor <;> linarith
  · constructor <;> linarith [h.1, h.2]

theorem floor (h : Represents em x) : ⌊x⌋ = em.mantissa := by
  rw [Int.floor_eq_iff]
  push_cast
  exact h.bounds

theorem roundedMantissa (h : Represents em x) : (em.roundedMantissa : ℤ) = roundEven x := by
  have hfloor := h.floor
  obtain ⟨m, _ | _, _ | _⟩ := em <;> simp only [Represents] at h <;>
    simp only [ExtendedMantissa.roundedMantissa, ExtendedMantissa.accuracy,
      Accuracy.roundToNearestEven] at hfloor ⊢
  · rw [h]
    simpa using (roundEven_intCast (m : ℤ)).symm
  · rw [roundEven_of_lt (by rw [hfloor]; push_cast; linarith [h.2]), hfloor]
  · rw [roundEven_of_eq (by rw [hfloor, h]; push_cast; ring), hfloor]
    push_cast
    omega
  · rw [roundEven_of_gt (by rw [hfloor]; push_cast; linarith [h.1]), hfloor]
    push_cast
    ring

theorem shiftRightOne (h : Represents em x) : Represents em.shiftRightOne (x / 2) := by
  obtain ⟨m, r, s⟩ := em
  obtain ⟨k, rfl | rfl⟩ := Nat.even_or_odd' m
  · -- an even mantissa: nothing reaches the round bit
    have hshift : ExtendedMantissa.shiftRightOne ⟨2 * k, r, s⟩ = ⟨k, false, r || s⟩ := by
      simp [ExtendedMantissa.shiftRightOne]
    rw [hshift]
    cases r <;> cases s <;>
      simp only [Represents, Bool.or_false, Bool.or_true, Nat.cast_mul, Nat.cast_ofNat] at h ⊢
    · linarith
    · exact ⟨by linarith [h.1], by linarith [h.2]⟩
    · exact ⟨by linarith, by linarith⟩
    · exact ⟨by linarith [h.1], by linarith [h.2]⟩
  · -- an odd mantissa: its last bit becomes the round bit
    have hdiv : (2 * k + 1) / 2 = k := by omega
    have hshift : ExtendedMantissa.shiftRightOne ⟨2 * k + 1, r, s⟩ = ⟨k, true, r || s⟩ := by
      simp [ExtendedMantissa.shiftRightOne, hdiv, Nat.add_mod]
    rw [hshift]
    cases r <;> cases s <;>
      simp only [Represents, Bool.or_false, Bool.or_true, Nat.cast_add, Nat.cast_mul,
        Nat.cast_ofNat, Nat.cast_one] at h ⊢
    · linarith
    · exact ⟨by linarith [h.1], by linarith [h.2]⟩
    · exact ⟨by linarith, by linarith⟩
    · exact ⟨by linarith [h.1], by linarith [h.2]⟩

theorem shiftRight (h : Represents em x) (n : ℕ) : Represents (em >>> n) (x / 2 ^ n) := by
  induction n with
  | zero => simpa using h
  | succ n ih =>
    show Represents (em >>> n).shiftRightOne _
    rw [pow_succ, ← div_div]
    exact ih.shiftRightOne

end Represents

theorem represents_fraction (q : ℕ) {r d : ℕ} (hr : r < d) :
    Represents (.ofMantissaAndAccuracy q (accuracyOfFraction r d)) (q + r / d) := by
  have hd : (0 : ℚ) < d := by exact_mod_cast (Nat.zero_le r).trans_lt hr
  have hfrac : (r : ℚ) / d < 1 := (div_lt_one hd).mpr (by exact_mod_cast hr)
  unfold accuracyOfFraction
  split_ifs with h0
  · subst h0
    simp [Represents, ExtendedMantissa.ofMantissaAndAccuracy]
  have hpos : (0 : ℚ) < r / d := div_pos (by exact_mod_cast Nat.pos_of_ne_zero h0) hd
  have hhalf : (r : ℚ) / d - 1 / 2 = (2 * r - d) / (2 * d) := by
    field_simp
  rcases hc : compare (2 * r) d with _ | _ | _ <;>
    simp only [Represents, ExtendedMantissa.ofMantissaAndAccuracy]
  · have h2 : ((2 * r : ℕ) : ℚ) < d := by exact_mod_cast Nat.compare_eq_lt.mp hc
    have hlt : (r : ℚ) / d < 1 / 2 := by
      rw [← sub_neg, hhalf]
      push_cast at h2
      exact div_neg_of_neg_of_pos (by linarith) (by linarith)
    constructor <;> linarith
  · have h2 : ((2 * r : ℕ) : ℚ) = d := by exact_mod_cast Nat.compare_eq_eq.mp hc
    have heq : (r : ℚ) / d = 1 / 2 := by
      rw [← sub_eq_zero, hhalf]
      push_cast at h2
      rw [h2, sub_self, zero_div]
    rw [heq]
  · have h2 : (d : ℚ) < ((2 * r : ℕ) : ℚ) := by exact_mod_cast Nat.compare_eq_gt.mp hc
    have hgt : 1 / 2 < (r : ℚ) / d := by
      rw [← sub_pos, hhalf]
      push_cast at h2
      exact div_pos (by linarith) (by linarith)
    constructor <;> linarith

/-! ### The exponent a result is rounded to -/

theorem log_mul_zpow_of_floor {x : ℚ} {m : ℕ} (hm : 0 < m) (hlo : (m : ℚ) ≤ x) (hhi : x < m + 1)
    (e : ℤ) : Int.log 2 (x * 2 ^ e) = m.log2 + e := by
  have hx : (0 : ℚ) < x := lt_of_lt_of_le (by exact_mod_cast hm) hlo
  have hq : (0 : ℚ) < x * 2 ^ e := by positivity
  have hbelow : (2 : ℚ) ^ (m.log2 : ℤ) ≤ x := by
    rw [zpow_natCast]
    exact le_trans (by exact_mod_cast Nat.log2_self_le hm.ne') hlo
  have habove : x < 2 ^ ((m.log2 : ℤ) + 1) := by
    rw [show (m.log2 : ℤ) + 1 = ((m.log2 + 1 : ℕ) : ℤ) by push_cast; ring, zpow_natCast]
    have hsucc : m + 1 ≤ 2 ^ (m.log2 + 1) := Nat.lt_log2_self
    exact hhi.trans_le (by exact_mod_cast hsucc)
  apply le_antisymm
  · rw [← Int.lt_add_one_iff, ← Int.lt_zpow_iff_log_lt (by norm_num) hq, Nat.cast_ofNat,
      show (m.log2 : ℤ) + e + 1 = (m.log2 + 1) + e by ring, zpow_add₀ two_ne_zero]
    gcongr
  · rw [← Int.zpow_le_iff_le_log (by norm_num) hq, Nat.cast_ofNat, zpow_add₀ two_ne_zero]
    gcongr

theorem log_natCast_mul_zpow {m : ℕ} (hm : 0 < m) (e : ℤ) :
    Int.log 2 ((m : ℚ) * 2 ^ e) = m.log2 + e :=
  log_mul_zpow_of_floor hm le_rfl (lt_add_one _) e

theorem targetExponent_eq {m : ℕ} (hm : 0 < m) (e : ℤ) :
    Format.binary64.targetExponent (totalExponent m e) = quantumExponent (m * 2 ^ e) := by
  rw [targetExponent_binary64, quantumExponent_of_pos (by positivity), log_natCast_mul_zpow hm,
    totalExponent]
  omega

theorem targetExponent_of_represents {em : ExtendedMantissa} {x : ℚ} {e : ℤ}
    (hx : Represents em x) (hx₀ : 0 < x) (he : e ≤ quantumExponent (x * 2 ^ e)) :
    Format.binary64.targetExponent (totalExponent em.mantissa e) = quantumExponent (x * 2 ^ e) := by
  obtain ⟨hlo, hhi⟩ := hx.bounds
  have hq : (0 : ℚ) < x * 2 ^ e := by positivity
  rw [quantumExponent_of_pos hq] at he ⊢
  rcases Nat.eq_zero_or_pos em.mantissa with h0 | hpos
  · -- no integer part: the exact value lies below `2 ^ e`, so among the subnormals
    rw [h0, Nat.cast_zero, zero_add] at hhi
    have hlog : Int.log 2 (x * 2 ^ e) < e := by
      rw [← Int.lt_zpow_iff_log_lt (by norm_num) hq, Nat.cast_ofNat]
      calc x * 2 ^ e < 1 * 2 ^ e := by gcongr
        _ = 2 ^ e := one_mul _
    rw [h0, targetExponent_binary64, totalExponent, Nat.log2_zero]
    omega
  · rw [targetExponent_binary64, log_mul_zpow_of_floor hpos hlo hhi, totalExponent]
    omega

/-! ### Rounding a mantissa -/

theorem shiftToTargetExponent_rounded {r : ℕ} {t : ℤ} (hr : r ≤ 2 ^ 53) (ht : -1074 ≤ t) :
    shiftToTargetExponent .binary64 r t .exact =
      if r < 2 ^ 53 then (.ofMantissaAndAccuracy r .exact, t)
      else (.ofMantissaAndAccuracy (2 ^ 52) .exact, t + 1) := by
  split_ifs with hlt
  · have hlog : r.log2 < 53 := by
      rcases Nat.eq_zero_or_pos r with rfl | hpos
      · simp
      · exact (Nat.log2_lt hpos.ne').mpr hlt
    have hshift : (Format.binary64.targetExponent (totalExponent r t) - t).toNat = 0 := by
      rw [targetExponent_binary64, totalExponent]
      omega
    simp only [shiftToTargetExponent, shiftToExponent, hshift, shiftRight_zero, Nat.cast_zero,
      add_zero]
  · obtain rfl : r = 2 ^ 53 := by omega
    have hshift : (Format.binary64.targetExponent (totalExponent (2 ^ 53) t) - t).toNat = 1 := by
      rw [targetExponent_binary64, totalExponent, Nat.log2_two_pow]
      omega
    simp only [shiftToTargetExponent, shiftToExponent, hshift, Nat.cast_one]
    rfl

/-- `u` is the double nearest to `q` before packing: zero or a finite double in canonical form,
of value `roundNearest q`. Its exponent may still be past the largest that 64 bits hold. -/
structure RoundsTo (u : UnpackedFloat) (q : ℚ) : Prop where
  isFinite : u.isFinite = true
  canonical : Canonical u
  value : unpackedValue u = roundNearest q

theorem roundsTo_settled (s : Sign) {fm : ℕ} {fe : ℤ} {q : ℚ} (hm : fm < 2 ^ 53)
    (he : -1074 ≤ fe) (hc : 2 ^ 52 ≤ fm ∨ fe = -1074)
    (hq : ((s.apply fm : ℤ) : ℚ) * 2 ^ fe = roundNearest q) :
    RoundsTo (if h : fm = 0 then .zero s else .finite s fm fe (Nat.pos_of_ne_zero h)) q := by
  split_ifs with h
  · subst h
    refine ⟨rfl, trivial, ?_⟩
    cases s <;> simpa [Sign.apply, unpackedValue] using hq
  · exact ⟨rfl, ⟨hm, he, hc⟩, hq⟩

theorem roundWithAccuracy_spec (s : Sign) {m : ℕ} {e : ℤ} {acc : Accuracy} {x : ℚ}
    (hx : Represents (.ofMantissaAndAccuracy m acc) x) (hx₀ : 0 < x)
    (he : e ≤ quantumExponent (x * 2 ^ e)) :
    RoundsTo (roundWithAccuracy .binary64 s m e acc) (signed s (x * 2 ^ e)) := by
  have hq : (0 : ℚ) < x * 2 ^ e := by positivity
  obtain ⟨t, ht⟩ : ∃ t, quantumExponent (x * 2 ^ e) = t := ⟨_, rfl⟩
  have htdef : Format.binary64.targetExponent (totalExponent m e) = t := by
    simpa using (targetExponent_of_represents hx hx₀ he).trans ht
  rw [ht] at he
  have htmin : -1074 ≤ t := by rw [← htdef, targetExponent_binary64]; omega
  -- the first shift moves the mantissa to `t`, its bits past the point kept for the rounding
  have hfirst : shiftToTargetExponent .binary64 m e acc =
      (ExtendedMantissa.ofMantissaAndAccuracy m acc >>> (t - e).toNat, t) := by
    simp only [shiftToTargetExponent, shiftToExponent, htdef, Prod.mk.injEq, true_and]
    omega
  have hrep : Represents (ExtendedMantissa.ofMantissaAndAccuracy m acc >>> (t - e).toNat)
      (x * 2 ^ e / 2 ^ t) := by
    have hshift := hx.shiftRight (t - e).toNat
    rwa [← zpow_natCast, Int.toNat_of_nonneg (by omega), zpow_sub₀ two_ne_zero,
      div_div_eq_mul_div] at hshift
  obtain ⟨r, hrdef⟩ : ∃ r,
      (ExtendedMantissa.ofMantissaAndAccuracy m acc >>> (t - e).toNat).roundedMantissa = r :=
    ⟨_, rfl⟩
  have hvalue : (r : ℚ) * 2 ^ t = roundNearest (x * 2 ^ e) := by
    rw [roundNearest, ht, ← hrep.roundedMantissa, hrdef, Int.cast_natCast]
  have hr53 : r ≤ 2 ^ 53 := by
    have hle := roundNearest_le_two_zpow hq
    rw [← hvalue, ht, zpow_add₀ two_ne_zero, mul_comm (2 ^ t : ℚ)] at hle
    exact_mod_cast le_of_mul_le_mul_right hle (by positivity)
  have hr52 : 2 ^ 52 ≤ r ∨ t = -1074 := by
    rcases htmin.lt_or_eq with hlt | heq
    · left
      have hle := two_zpow_le_roundNearest hq (by rwa [ht])
      rw [← hvalue, ht, zpow_add₀ two_ne_zero, mul_comm (2 ^ t : ℚ)] at hle
      exact_mod_cast le_of_mul_le_mul_right hle (by positivity)
    · exact .inr heq.symm
  have hsigned : ∀ (n : ℕ) (f : ℤ), (n : ℚ) * 2 ^ f = roundNearest (x * 2 ^ e) →
      ((s.apply n : ℤ) : ℚ) * 2 ^ f = roundNearest (signed s (x * 2 ^ e)) := by
    intro n f h
    rw [signed_apply, roundNearest_signed, Int.cast_natCast, h]
  rcases hr53.lt_or_eq with hlt | hcarry
  · -- no carry: the rounded mantissa stays at `t`
    have hsettle : shiftToTargetExponent .binary64 r t .exact =
        (.ofMantissaAndAccuracy r .exact, t) := by
      rw [shiftToTargetExponent_rounded hr53 htmin, if_pos hlt]
    simp only [roundWithAccuracy, hfirst, hrdef, hsettle, mantissa_exact]
    exact roundsTo_settled s hlt htmin hr52 (hsigned r t hvalue)
  · -- a carry: `2 ^ 53` at `t` is `2 ^ 52` one place up
    have hsettle : shiftToTargetExponent .binary64 r t .exact =
        (.ofMantissaAndAccuracy (2 ^ 52) .exact, t + 1) := by
      rw [shiftToTargetExponent_rounded hr53 htmin, if_neg (by omega)]
    simp only [roundWithAccuracy, hfirst, hrdef, hsettle, mantissa_exact]
    refine roundsTo_settled s (by norm_num) (by omega) (.inl le_rfl) (hsigned _ _ ?_)
    rw [← hvalue, hcarry, zpow_add₀ two_ne_zero]
    norm_num
    ring

theorem roundWithAccuracy_exact (s : Sign) {m : ℕ} (hm : 0 < m) {e : ℤ}
    (he : e ≤ Format.binary64.targetExponent (totalExponent m e)) :
    RoundsTo (roundWithAccuracy .binary64 s m e .exact) (s.apply m * 2 ^ e) := by
  have hround := roundWithAccuracy_spec s (represents_exact m) (by exact_mod_cast hm)
    (by rwa [← targetExponent_eq hm e])
  rwa [signed_apply, Int.cast_natCast]

theorem shiftLeft_value (m k : ℕ) (e : ℤ) : ((m <<< k : ℕ) : ℚ) * 2 ^ (e - k) = m * 2 ^ e := by
  rw [Nat.shiftLeft_eq, Nat.cast_mul, Nat.cast_pow, Nat.cast_ofNat, mul_assoc, ← zpow_natCast,
    ← zpow_add₀ two_ne_zero, add_sub_cancel]

theorem le_targetExponent {m : ℕ} (hm : 0 < m) {e : ℤ} (h : 2 ^ 52 ≤ m ∨ e ≤ -1074) :
    e ≤ Format.binary64.targetExponent (totalExponent m e) := by
  rw [targetExponent_binary64, totalExponent]
  rcases h with h | h
  · have := (Nat.le_log2 hm.ne').mpr h
    omega
  · omega

/-- Rounding a positive mantissa at any exponent: one short of its 53 bits is first shifted left
to its target exponent, which keeps its value and leaves the rounding nothing to shift right. -/
theorem round_spec (s : Sign) {m : ℕ} (hm : 0 < m) (e : ℤ) :
    RoundsTo (UnpackedFloat.round .binary64 s m e) (s.apply m * 2 ^ e) := by
  obtain ⟨k, hk⟩ :
      ∃ k, (e - Format.binary64.targetExponent (totalExponent m e)).toNat = k := ⟨_, rfl⟩
  have hpos : 0 < m <<< k := by
    rw [Nat.shiftLeft_eq]
    positivity
  have htarget : e - k ≤ Format.binary64.targetExponent (totalExponent (m <<< k) (e - k)) := by
    rw [totalExponent_shiftLeft hm]
    omega
  have hround := roundWithAccuracy_exact s hpos htarget
  have hvalue : ((s.apply (m <<< k : ℕ) : ℤ) : ℚ) * 2 ^ (e - k) = (s.apply m : ℚ) * 2 ^ e := by
    cases s <;> simp only [Sign.apply, Int.cast_neg, Int.cast_natCast, neg_mul, shiftLeft_value]
  rw [hvalue] at hround
  simpa only [UnpackedFloat.round, decreaseExponent, hk] using hround

theorem normalize_spec (M E : ℤ) (zs : Sign) :
    RoundsTo (normalize .binary64 M E zs) (M * 2 ^ E) := by
  unfold UnpackedFloat.normalize
  rcases lt_trichotomy M 0 with hM | rfl | hM
  · rw [Int.compare_eq_lt.mpr hM]
    have hround := round_spec .negative (m := (-M).toNat) (by omega) E
    rwa [show (((Sign.negative.apply ((-M).toNat : ℤ)) : ℤ) : ℚ) = M by
      simp [Sign.apply, Int.toNat_of_nonneg (by omega : 0 ≤ -M)]] at hround
  · exact ⟨rfl, trivial, by simp [unpackedValue]⟩
  · rw [Int.compare_eq_gt.mpr hM]
    have hround := round_spec .positive (m := M.toNat) (by omega) E
    rwa [show (((Sign.positive.apply (M.toNat : ℤ)) : ℤ) : ℚ) = M by
      simp [Sign.apply, Int.toNat_of_nonneg hM.le]] at hround

theorem decreaseExponent_value (s : Sign) (m : ℕ) {e t : ℤ} (ht : t ≤ e) :
    ((s.apply (decreaseExponent m e t).1 : ℤ) : ℚ) * 2 ^ t = (s.apply m : ℚ) * 2 ^ e := by
  have hvalue := shiftLeft_value m (e - t).toNat e
  rw [Int.toNat_of_nonneg (by omega), sub_sub_cancel] at hvalue
  cases s <;> simp only [decreaseExponent, Sign.apply, Int.cast_neg, Int.cast_natCast, neg_mul,
    hvalue]

theorem roundsTo_self {u : UnpackedFloat} (hu : u.isFinite = true) (hc : Canonical u) :
    RoundsTo u (unpackedValue u) := by
  refine ⟨hu, hc, ?_⟩
  rcases u with s | _ | s | ⟨s, m, e, hm⟩
  · cases hu
  · cases hu
  · simp [unpackedValue]
  · obtain ⟨h53, he, h52⟩ := hc
    cases s <;> simp [unpackedValue, Sign.apply, roundNearest_neg, roundNearest_dyadic h53 he h52]

/-! ### Operations on finite doubles -/

section Operations

variable {u v : UnpackedFloat} (hu : u.isFinite = true) (hv : v.isFinite = true)
  (hcu : Canonical u) (hcv : Canonical v)
include hu hv hcu hcv

/-- Two finite doubles are summed exactly at the lower of their exponents and rounded once. -/
theorem add_spec :
    RoundsTo (UnpackedFloat.add .binary64 u v) (unpackedValue u + unpackedValue v) := by
  rcases u with su | _ | su | ⟨su, mu, eu, hmu⟩ <;>
    rcases v with sv | _ | sv | ⟨sv, mv, ev, hmv⟩ <;>
    simp only [UnpackedFloat.isFinite, Bool.false_eq_true] at hu hv
  · -- two zeros
    simp only [UnpackedFloat.add]
    split_ifs <;> exact ⟨rfl, trivial, by simp [unpackedValue]⟩
  · simpa [UnpackedFloat.add, unpackedValue] using roundsTo_self rfl hcv
  · simpa [UnpackedFloat.add, unpackedValue] using roundsTo_self rfl hcu
  · -- both finite: the mantissas are aligned at the lower exponent, which keeps their values
    have hround := normalize_spec ((su.apply (decreaseExponent mu eu (min eu ev)).1 : ℤ) +
      sv.apply (decreaseExponent mv ev (min eu ev)).1) (min eu ev) .positive
    rw [Int.cast_add, add_mul, decreaseExponent_value su mu (min_le_left eu ev),
      decreaseExponent_value sv mv (min_le_right eu ev)] at hround
    exact hround

theorem sub_spec :
    RoundsTo (UnpackedFloat.sub .binary64 u v) (unpackedValue u - unpackedValue v) := by
  rcases u with su | _ | su | ⟨su, mu, eu, hmu⟩ <;>
    rcases v with sv | _ | sv | ⟨sv, mv, ev, hmv⟩ <;>
    simp only [UnpackedFloat.isFinite, Bool.false_eq_true] at hu hv
  · -- two zeros
    simp only [UnpackedFloat.sub]
    split_ifs <;> exact ⟨rfl, trivial, by simp [unpackedValue]⟩
  · -- from zero: the negation, which changes no bit but the sign
    have hneg := roundsTo_self (u := .finite (-sv) mv ev hmv) rfl hcv
    cases sv <;> simpa [UnpackedFloat.sub, unpackedValue, Sign.apply] using hneg
  · simpa [UnpackedFloat.sub, unpackedValue] using roundsTo_self rfl hcu
  · -- both finite: the mantissas are aligned at the lower exponent, which keeps their values
    have hround := normalize_spec ((su.apply (decreaseExponent mu eu (min eu ev)).1 : ℤ) -
      sv.apply (decreaseExponent mv ev (min eu ev)).1) (min eu ev) .positive
    rw [Int.cast_sub, sub_mul, decreaseExponent_value su mu (min_le_left eu ev),
      decreaseExponent_value sv mv (min_le_right eu ev)] at hround
    exact hround

theorem mul_spec :
    RoundsTo (UnpackedFloat.mul .binary64 u v) (unpackedValue u * unpackedValue v) := by
  rcases u with su | _ | su | ⟨su, mu, eu, hmu⟩ <;>
    rcases v with sv | _ | sv | ⟨sv, mv, ev, hmv⟩ <;>
    simp only [UnpackedFloat.isFinite, Bool.false_eq_true] at hu hv
  any_goals exact ⟨rfl, trivial, by simp [UnpackedFloat.mul, unpackedValue]⟩
  have hprod : 2 ^ 52 ≤ mu * mv ∨ eu + ev ≤ -1074 := by
    obtain ⟨-, heu, hu52⟩ := hcu
    obtain ⟨-, hev, hv52⟩ := hcv
    rcases hu52 with h | h
    · exact .inl (h.trans (Nat.le_mul_of_pos_right mu hmv))
    · rcases hv52 with h' | h'
      · exact .inl (h'.trans (Nat.le_mul_of_pos_left mv hmu))
      · exact .inr (by omega)
  have hround := roundWithAccuracy_exact (su * sv) (Nat.mul_pos hmu hmv)
    (le_targetExponent (Nat.mul_pos hmu hmv) hprod)
  rw [Nat.cast_mul, Sign.apply_mul, Int.cast_mul, zpow_add₀ two_ne_zero,
    mul_mul_mul_comm] at hround
  exact hround

end Operations

/-! ### Division -/

theorem le_log_div {m₁ m₂ : ℕ} (hm₁ : 0 < m₁) (hm₂ : 0 < m₂) (e₁ e₂ : ℤ) :
    totalExponent m₁ e₁ - totalExponent m₂ e₂ - 1 ≤
      Int.log 2 ((m₁ * 2 ^ e₁ : ℚ) / (m₂ * 2 ^ e₂)) := by
  have hq : (0 : ℚ) < (m₁ * 2 ^ e₁) / (m₂ * 2 ^ e₂) := by positivity
  have hlo : (2 : ℚ) ^ (m₁.log2 : ℤ) ≤ m₁ := by
    rw [zpow_natCast]
    exact_mod_cast Nat.log2_self_le hm₁.ne'
  have hhi : (m₂ : ℚ) ≤ 2 ^ ((m₂.log2 : ℤ) + 1) := by
    rw [show (m₂.log2 : ℤ) + 1 = ((m₂.log2 + 1 : ℕ) : ℤ) by push_cast; ring, zpow_natCast]
    exact_mod_cast Nat.lt_log2_self.le
  rw [← Int.zpow_le_iff_le_log (by norm_num) hq, Nat.cast_ofNat, totalExponent, totalExponent,
    show (m₁.log2 : ℤ) + 1 + e₁ - (m₂.log2 + 1 + e₂) - 1 = (m₁.log2 + e₁) - (m₂.log2 + 1 + e₂) by
      ring, zpow_sub₀ two_ne_zero, zpow_add₀ two_ne_zero, zpow_add₀ two_ne_zero]
  gcongr


/-- A finite double divided by a nonzero finite double is the exact quotient rounded once:
`divCore` shifts the dividend far enough for the quotient's bits and keeps where the remainder
lies for the rounding. -/
theorem div_spec {u v : UnpackedFloat} (hu : u.isFinite = true) (hv : v.isFinite = true)
    (hv₀ : unpackedValue v ≠ 0) :
    RoundsTo (UnpackedFloat.div .binary64 u v) (unpackedValue u / unpackedValue v) := by
  rcases u with su | _ | su | ⟨su, mu, eu, hmu⟩ <;>
    rcases v with sv | _ | sv | ⟨sv, mv, ev, hmv⟩ <;>
    simp only [UnpackedFloat.isFinite, Bool.false_eq_true] at hu hv
  any_goals exact absurd rfl hv₀
  · exact ⟨rfl, trivial, by simp [UnpackedFloat.div, unpackedValue]⟩
  obtain ⟨t, ht⟩ : ∃ t, min (eu - ev) (Format.binary64.targetExponent
      (totalExponent mu eu - totalExponent mv ev)) = t := ⟨_, rfl⟩
  obtain ⟨k, hk⟩ : ∃ k, (eu - ev - t).toNat = k := ⟨_, rfl⟩
  have hkt : (k : ℤ) = eu - ev - t := by rw [← hk]; omega
  have hdiv : divCore .binary64 mu eu mv ev =
      ((mu <<< k) / mv, t, accuracyOfFraction ((mu <<< k) % mv) mv) := by
    rw [← hk, ← ht]
    rfl
  have hrep := represents_fraction ((mu <<< k) / mv) (Nat.mod_lt (mu <<< k) hmv)
  have hmv' : (0 : ℚ) < mv := by exact_mod_cast hmv
  have hx : (((mu <<< k) / mv : ℕ) : ℚ) + ((mu <<< k) % mv : ℕ) / mv = mu * 2 ^ k / mv := by
    have hsplit := Nat.div_add_mod (mu <<< k) mv
    rw [Nat.shiftLeft_eq] at hsplit ⊢
    field_simp
    exact_mod_cast (by rw [mul_comm]; exact hsplit)
  have hxt : (mu * 2 ^ k / mv : ℚ) * 2 ^ t = (mu * 2 ^ eu) / (mv * 2 ^ ev) := by
    rw [← zpow_natCast, hkt, zpow_sub₀ two_ne_zero, zpow_sub₀ two_ne_zero]
    field_simp
  have hx₀ : (0 : ℚ) < mu * 2 ^ k / mv := by positivity
  have he : t ≤ quantumExponent ((mu * 2 ^ k / mv : ℚ) * 2 ^ t) := by
    have hlog := le_log_div hmu hmv eu ev
    rw [hxt, quantumExponent_of_pos (by positivity)]
    rw [targetExponent_binary64] at ht
    omega
  have hround := roundWithAccuracy_spec (su / sv) (hx ▸ hrep) hx₀ he
  rw [hxt] at hround
  have hvalue : signed (su / sv) ((mu * 2 ^ eu) / (mv * 2 ^ ev)) =
      unpackedValue (.finite su mu eu hmu) / unpackedValue (.finite sv mv ev hmv) := by
    cases su <;> cases sv <;> simp [signed, unpackedValue, Sign.apply, neg_div, div_neg] <;> rfl
  rw [hvalue] at hround
  simpa only [UnpackedFloat.div, hdiv] using hround

/-! ### Halving and absolute values -/

theorem half_unpack :
    (0.5 : Float).toModel.unpack = .finite .positive (2 ^ 52) (-53) (by norm_num) := rfl

theorem div_half_spec {u : UnpackedFloat} (hu : u.isFinite = true) :
    RoundsTo (UnpackedFloat.div .binary64 u (0.5 : Float).toModel.unpack)
      (unpackedValue u / (1 / 2)) := by
  have hhalf : unpackedValue (0.5 : Float).toModel.unpack = 1 / 2 := by
    rw [half_unpack]
    norm_num [unpackedValue, Sign.apply]
  rw [← hhalf]
  exact div_spec hu rfl (by rw [hhalf]; norm_num)

/-! ### Packing into 64 bits -/

theorem unpack_pack_zero (s : Sign) :
    UnpackedFloat.unpack .binary64 (pack .binary64 (.zero s)) = .zero s :=
  unpack_packedZero

theorem unpack_pack_infinity (s : Sign) :
    UnpackedFloat.unpack .binary64 (pack .binary64 (.infinity s)) = .infinity s := by
  cases s <;> rfl

theorem exponentBias_binary64 : Format.binary64.exponentBias = 1023 := rfl

theorem mantissaBitsWithoutImplicit_binary64 : Format.binary64.mantissaBitsWithoutImplicit = 52 :=
  rfl

theorem biasedExponent_binary64 (e : ℤ) :
    (e + (Format.binary64.exponentBias : ℤ) +
      (Format.binary64.mantissaBitsWithoutImplicit : ℤ)).toNat = (e + 1075).toNat := by
  rw [exponentBias_binary64, mantissaBitsWithoutImplicit_binary64]
  omega

theorem exponentBits_binary64 : (2 : ℕ) ^ Format.binary64.exponentBits = 2048 := rfl

theorem unpack_pack_finite {s : Sign} {m : ℕ} {e : ℤ} {hm : 0 < m}
    (hc : Canonical (.finite s m e hm)) (he : e ≤ 971) :
    UnpackedFloat.unpack .binary64 (pack .binary64 (.finite s m e hm)) = .finite s m e hm := by
  obtain ⟨h53, hmin, h52⟩ := hc
  have hlog : m.log2 < 53 := (Nat.log2_lt hm.ne').mpr h53
  unfold UnpackedFloat.pack
  dsimp only
  split_ifs with hover hnormal
  · rw [biasedExponent_binary64, exponentBits_binary64] at hover
    omega
  · -- normal: the biased exponent lies strictly between zero and all ones
    have hm52 : 2 ^ 52 ≤ m :=
      (Nat.le_log2 hm.ne').mp (by simp [Format.mantissaBits] at hnormal; omega)
    have hE : (BitVec.ofNat 11 (e + Format.binary64.exponentBias + ((52 : ℕ) : ℤ)).toNat).toNat =
        (e + 1075).toNat := by
      rw [BitVec.toNat_ofNat, exponentBias_binary64]
      omega
    unfold UnpackedFloat.unpack
    simp only [unpackExponent_packComponents, unpackMantissa_packComponents,
      unpackSign_packComponents, Sign.ofBitVec_toBitVec]
    rw [if_neg (fun h => by have := congrArg BitVec.toNat h; rw [hE] at this; simp at this; omega),
      if_neg (fun h => by have := congrArg BitVec.toNat h; rw [hE] at this; simp at this; omega),
      UnpackedFloat.finite.injEq]
    refine ⟨rfl, ?_, ?_⟩
    · rw [toNat_one_append, BitVec.toNat_ofNat]
      omega
    · rw [hE, exponentBias_binary64]
      omega
  · -- subnormal: a mantissa below `2 ^ 52` at the least exponent, stored as it is
    have hsmall : m < 2 ^ 52 :=
      (Nat.log2_lt hm.ne').mp (by simp [Format.mantissaBits] at hnormal; omega)
    have he' : e = -1074 := h52.resolve_left (by omega)
    have hM : (BitVec.ofNat 52 m).toNat = m := by
      rw [BitVec.toNat_ofNat]
      omega
    unfold UnpackedFloat.unpack
    simp only [unpackExponent_packComponents, unpackMantissa_packComponents,
      unpackSign_packComponents, Sign.ofBitVec_toBitVec]
    rw [if_neg (by decide), if_pos trivial,
      dif_neg (fun h => by have := congrArg BitVec.toNat h; rw [hM] at this; simp at this; omega),
      UnpackedFloat.finite.injEq]
    refine ⟨rfl, hM, ?_⟩
    rw [BitVec.toNat_zero, exponentBias_binary64]
    omega

theorem unpack_pack_overflow {s : Sign} {m : ℕ} {e : ℤ} {hm : 0 < m} (he : 971 < e) :
    UnpackedFloat.unpack .binary64 (pack .binary64 (.finite s m e hm)) = .infinity s := by
  unfold UnpackedFloat.pack
  dsimp only
  rw [if_pos (by rw [biasedExponent_binary64, exponentBits_binary64]; omega)]
  unfold packedInfinity UnpackedFloat.unpack
  simp

end DoublesLineup.Rounded
