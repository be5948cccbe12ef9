import Mathlib.Algebra.Order.Field.Power
import Mathlib.Data.Int.Log
import Mathlib.Data.Rat.Floor
import Mathlib.Tactic.GCongr
import Mathlib.Tactic.Linarith
import Mathlib.Tactic.Positivity
import Mathlib.Tactic.Ring
/-! # Rounding a rational to the nearest double

IEEE 754 defines each basic operation on doubles as its exact result rounded once: to the
nearest number `m * 2 ^ e` with `m < 2 ^ 53` and `e ≥ -1074`, a tie going to the even `m`.
`roundNearest` is that rounding on the rationals, with no greatest exponent; a result of
`2 ^ 1024` or more is what the doubles see as an overflow. Three facts about it carry the bounds
on computed doubles: it is monotone (`roundNearest_mono`), odd (`roundNearest_neg`), and it fixes
every number a double represents (`roundNearest_dyadic`). It moves a number by at most a
relative `2 ^ -53` plus half the least subnormal (`abs_roundNearest_sub_le`).
-/

namespace DoublesLineup.Nearest

/-! ### To the nearest integer -/

/-- The integer nearest to `q`, of two at a tie the even one. -/
def roundEven (q : ℚ) : ℤ :=
  if q - ⌊q⌋ < 1 / 2 then ⌊q⌋
  else if 1 / 2 < q - ⌊q⌋ then ⌊q⌋ + 1
  else ⌊q⌋ + ⌊q⌋ % 2

section Branches

variable {q : ℚ}

theorem roundEven_of_lt (h : q - ⌊q⌋ < 1 / 2) : roundEven q = ⌊q⌋ := if_pos h

theorem roundEven_of_gt (h : 1 / 2 < q - ⌊q⌋) : roundEven q = ⌊q⌋ + 1 := by
  rw [roundEven, if_neg (by linarith), if_pos h]

theorem roundEven_of_eq (h : q - ⌊q⌋ = 1 / 2) : roundEven q = ⌊q⌋ + ⌊q⌋ % 2 := by
  rw [roundEven, if_neg (by linarith), if_neg (by linarith)]

end Branches

theorem roundEven_bounds (q : ℚ) : ⌊q⌋ ≤ roundEven q ∧ roundEven q ≤ ⌊q⌋ + 1 := by
  have h0 := Int.emod_nonneg ⌊q⌋ two_ne_zero
  have h1 := Int.emod_lt_of_pos ⌊q⌋ two_pos
  unfold roundEven
  split_ifs <;> omega

@[simp] theorem roundEven_intCast (k : ℤ) : roundEven k = k := by
  simp [roundEven]

@[simp] theorem roundEven_zero : roundEven 0 = 0 := by
  simpa using roundEven_intCast 0

theorem roundEven_mono {a b : ℚ} (h : a ≤ b) : roundEven a ≤ roundEven b := by
  have ha := roundEven_bounds a
  have hb := roundEven_bounds b
  rcases (Int.floor_mono h).lt_or_eq with hlt | heq
  · -- past an integer: `a` rounds to at most it and `b` to at least it
    omega
  · -- below one integer: the parts past it are in order, and only `b`'s decides
    have hpart : a - ⌊a⌋ ≤ b - ⌊b⌋ := by rw [heq]; linarith
    rcases lt_trichotomy (b - ⌊b⌋) (1 / 2) with hb' | hb' | hb'
    · rw [roundEven_of_lt (hpart.trans_lt hb'), roundEven_of_lt hb', heq]
    · rw [roundEven_of_eq hb']
      rcases (hpart.trans_eq hb').lt_or_eq with ha' | ha'
      · rw [roundEven_of_lt ha', heq]
        omega
      · rw [roundEven_of_eq ha', heq]
    · rw [roundEven_of_gt hb', ← heq]
      exact ha.2

theorem roundEven_nonneg {q : ℚ} (hq : 0 ≤ q) : 0 ≤ roundEven q := by
  simpa using roundEven_mono hq

theorem roundEven_neg (q : ℚ) : roundEven (-q) = -roundEven q := by
  by_cases hq : q = ⌊q⌋
  · rw [hq, ← Int.cast_neg, roundEven_intCast, roundEven_intCast]
  · -- off the integers, the part of `-q` past its floor is what `q`'s lacks to one
    have hlt : (⌊q⌋ : ℚ) < q := lt_of_le_of_ne (Int.floor_le q) (Ne.symm hq)
    have hf : ⌊-q⌋ = -⌊q⌋ - 1 := by
      rw [Int.floor_eq_iff]
      push_cast
      constructor <;> linarith [Int.lt_floor_add_one q]
    have hpart : -q - ⌊-q⌋ = 1 - (q - ⌊q⌋) := by
      rw [hf]
      push_cast
      ring
    rcases lt_trichotomy (q - ⌊q⌋) (1 / 2) with h | h | h
    · rw [roundEven_of_lt h, roundEven_of_gt (by linarith), hf]
      ring
    · rw [roundEven_of_eq h, roundEven_of_eq (by linarith), hf]
      omega
    · rw [roundEven_of_gt h, roundEven_of_lt (by linarith), hf]
      ring

/-! ### To the nearest double -/

/-- The exponent of the last place of a double near `q`: 52 places below its leading one, but
never below the least subnormal's. -/
def quantumExponent (q : ℚ) : ℤ := max (Int.log 2 |q| - 52) (-1074)

/-- `q` rounded to the nearest double, a tie to an even last place, with no greatest exponent. -/
def roundNearest (q : ℚ) : ℚ := roundEven (q / 2 ^ quantumExponent q) * 2 ^ quantumExponent q

@[simp] theorem quantumExponent_neg (q : ℚ) : quantumExponent (-q) = quantumExponent q := by
  simp [quantumExponent]

theorem roundNearest_neg (q : ℚ) : roundNearest (-q) = -roundNearest q := by
  simp only [roundNearest, quantumExponent_neg, neg_div, roundEven_neg, Int.cast_neg, neg_mul]

@[simp] theorem roundNearest_zero : roundNearest 0 = 0 := by
  simp [roundNearest]

theorem roundNearest_nonneg {q : ℚ} (hq : 0 ≤ q) : 0 ≤ roundNearest q := by
  have h : (0 : ℚ) ≤ roundEven (q / 2 ^ quantumExponent q) := by
    exact_mod_cast roundEven_nonneg (by positivity)
  unfold roundNearest
  positivity

section Binade

variable {q : ℚ} (hq : 0 < q)
include hq

theorem quantumExponent_of_pos : quantumExponent q = max (Int.log 2 q - 52) (-1074) := by
  rw [quantumExponent, abs_of_pos hq]

theorem lt_two_zpow_quantumExponent : q < 2 ^ (quantumExponent q + 53) := by
  have h := Int.lt_zpow_succ_log_self (b := 2) (by norm_num) q
  rw [Nat.cast_ofNat] at h
  refine h.trans_le (zpow_le_zpow_right₀ (by norm_num) ?_)
  rw [quantumExponent_of_pos hq]
  omega

theorem two_zpow_quantumExponent_le (h : -1074 < quantumExponent q) :
    2 ^ (quantumExponent q + 52) ≤ q := by
  have hlog := Int.zpow_log_le_self (b := 2) (by norm_num) hq
  rw [Nat.cast_ofNat] at hlog
  rw [quantumExponent_of_pos hq] at h ⊢
  rwa [show max (Int.log 2 q - 52) (-1074) + 52 = Int.log 2 q by omega]

theorem roundNearest_le_two_zpow : roundNearest q ≤ 2 ^ (quantumExponent q + 53) := by
  have hscaled : q / 2 ^ quantumExponent q ≤ ((2 ^ 53 : ℤ) : ℚ) := by
    rw [div_le_iff₀ (by positivity), Int.cast_pow, Int.cast_ofNat, ← zpow_natCast,
      ← zpow_add₀ two_ne_zero, Nat.cast_ofNat, add_comm]
    exact (lt_two_zpow_quantumExponent hq).le
  have hround := roundEven_mono hscaled
  rw [roundEven_intCast] at hround
  unfold roundNearest
  rw [zpow_add₀ two_ne_zero, mul_comm (2 ^ quantumExponent q : ℚ)]
  gcongr
  exact_mod_cast hround

theorem two_zpow_le_roundNearest (h : -1074 < quantumExponent q) :
    2 ^ (quantumExponent q + 52) ≤ roundNearest q := by
  have hscaled : ((2 ^ 52 : ℤ) : ℚ) ≤ q / 2 ^ quantumExponent q := by
    rw [le_div_iff₀ (by positivity), Int.cast_pow, Int.cast_ofNat, ← zpow_natCast,
      ← zpow_add₀ two_ne_zero, Nat.cast_ofNat, add_comm]
    exact two_zpow_quantumExponent_le hq h
  have hround := roundEven_mono hscaled
  rw [roundEven_intCast] at hround
  unfold roundNearest
  rw [zpow_add₀ two_ne_zero, mul_comm (2 ^ quantumExponent q : ℚ)]
  gcongr
  exact_mod_cast hround

end Binade

theorem quantumExponent_mono {a b : ℚ} (ha : 0 < a) (h : a ≤ b) :
    quantumExponent a ≤ quantumExponent b := by
  have hlog := Int.log_mono_right (b := 2) ha h
  rw [quantumExponent_of_pos ha, quantumExponent_of_pos (ha.trans_le h)]
  omega

theorem roundNearest_mono_of_pos {a b : ℚ} (ha : 0 < a) (h : a ≤ b) :
    roundNearest a ≤ roundNearest b := by
  have hb : 0 < b := ha.trans_le h
  have hmin : -1074 ≤ quantumExponent a := le_max_right _ _
  rcases (quantumExponent_mono ha h).lt_or_eq with hlt | heq
  · -- `b` sits in a higher binade, which starts where `a` rounds to at most
    calc roundNearest a ≤ 2 ^ (quantumExponent a + 53) := roundNearest_le_two_zpow ha
      _ ≤ 2 ^ (quantumExponent b + 52) := zpow_le_zpow_right₀ (by norm_num) (by omega)
      _ ≤ roundNearest b := two_zpow_le_roundNearest hb (by omega)
  · -- one last place for both: rounding the scaled numbers is monotone
    have hround := roundEven_mono (div_le_div_of_nonneg_right h (zpow_nonneg
      (by norm_num : (0 : ℚ) ≤ 2) (quantumExponent a)))
    unfold roundNearest
    rw [← heq]
    gcongr

/-- Rounding to the nearest double is monotone. -/
theorem roundNearest_mono {a b : ℚ} (h : a ≤ b) : roundNearest a ≤ roundNearest b := by
  rcases lt_trichotomy 0 a with ha | rfl | ha
  · exact roundNearest_mono_of_pos ha h
  · simpa using roundNearest_nonneg h
  · have hneg : roundNearest a ≤ 0 := by
      rw [← neg_neg a, roundNearest_neg, neg_nonpos]
      exact roundNearest_nonneg (by linarith)
    rcases le_or_gt 0 b with hb | hb
    · exact hneg.trans (roundNearest_nonneg hb)
    · -- both negative: their mirror images are in the other order
      have hmirror := roundNearest_mono_of_pos (neg_pos.mpr hb) (neg_le_neg h)
      rwa [roundNearest_neg, roundNearest_neg, neg_le_neg_iff] at hmirror

theorem roundNearest_abs (q : ℚ) : roundNearest |q| = |roundNearest q| := by
  rcases le_total 0 q with h | h
  · rw [abs_of_nonneg h, abs_of_nonneg (roundNearest_nonneg h)]
  · have hq : roundNearest q ≤ 0 := by simpa using roundNearest_mono h
    rw [abs_of_nonpos h, abs_of_nonpos hq, roundNearest_neg]

theorem roundNearest_dyadic {m : ℕ} {e : ℤ} (hm : m < 2 ^ 53) (he : -1074 ≤ e)
    (hc : 2 ^ 52 ≤ m ∨ e = -1074) : roundNearest (m * 2 ^ e) = m * 2 ^ e := by
  rcases Nat.eq_zero_or_pos m with rfl | hpos
  · simp
  have hq : (0 : ℚ) < m * 2 ^ e := by positivity
  have hlog : Int.log 2 ((m : ℚ) * 2 ^ e) < 53 + e := by
    rw [← Int.lt_zpow_iff_log_lt (by norm_num) hq, Nat.cast_ofNat, zpow_add₀ two_ne_zero,
      show (2 : ℚ) ^ (53 : ℤ) = ((2 ^ 53 : ℕ) : ℚ) by norm_num]
    gcongr
  have hexp : quantumExponent (m * 2 ^ e) = e := by
    rw [quantumExponent_of_pos hq]
    rcases hc with hc | rfl
    · have hlog' : 52 + e ≤ Int.log 2 ((m : ℚ) * 2 ^ e) := by
        rw [← Int.zpow_le_iff_le_log (by norm_num) hq, Nat.cast_ofNat, zpow_add₀ two_ne_zero,
          show (2 : ℚ) ^ (52 : ℤ) = ((2 ^ 52 : ℕ) : ℚ) by norm_num]
        gcongr
      omega
    · omega
  rw [roundNearest, hexp, mul_div_cancel_right₀ _ (zpow_ne_zero e two_ne_zero)]
  rw [show ((m : ℚ)) = ((m : ℤ) : ℚ) from rfl, roundEven_intCast]

/-! ### How far rounding moves a number -/

theorem abs_roundEven_sub_le (q : ℚ) : |(roundEven q : ℚ) - q| ≤ 1 / 2 := by
  have hfloor := Int.floor_le q
  have hceil := Int.lt_floor_add_one q
  unfold roundEven
  split_ifs with hlt hgt
  · rw [abs_le]
    constructor <;> linarith
  · push_cast
    rw [abs_le]
    constructor <;> linarith
  · -- a tie: both neighbours are half away
    have htie : q - ⌊q⌋ = 1 / 2 := by linarith
    rcases Int.emod_two_eq_zero_or_one ⌊q⌋ with h | h <;> rw [h] <;> push_cast <;>
      rw [abs_le] <;> constructor <;> linarith

/-- The relative error of one rounding above the subnormals: half the gap between one and the
next double. -/
def unitRoundoff : ℚ := 1 / 2 ^ 53

/-- The absolute error of one rounding among the subnormals: half the least of them. -/
def underflowError : ℚ := 1 / 2 ^ 1075

theorem unitRoundoff_pos : 0 < unitRoundoff := by
  unfold unitRoundoff
  positivity

theorem underflowError_pos : 0 < underflowError := by
  unfold underflowError
  positivity

theorem two_pow_mul_underflowError : 2 ^ 1022 * underflowError = unitRoundoff := by
  unfold underflowError unitRoundoff
  rw [show (2 : ℚ) ^ 1075 = 2 ^ 1022 * 2 ^ 53 by rw [← pow_add]]
  field_simp

theorem abs_roundNearest_sub_le (q : ℚ) :
    |roundNearest q - q| ≤ |q| * unitRoundoff + underflowError := by
  rcases eq_or_ne q 0 with rfl | hq
  · simpa using underflowError_pos.le
  obtain ⟨Q, hQ⟩ : ∃ Q, quantumExponent q = Q := ⟨_, rfl⟩
  have hpow : (0 : ℚ) < 2 ^ Q := by positivity
  have hhalf : |roundNearest q - q| ≤ 2 ^ Q / 2 := by
    have hsplit : roundNearest q - q = ((roundEven (q / 2 ^ Q) : ℚ) - q / 2 ^ Q) * 2 ^ Q := by
      rw [roundNearest, hQ, sub_mul, div_mul_cancel₀ _ hpow.ne']
    rw [hsplit, abs_mul, abs_of_pos hpow]
    have hround := mul_le_mul_of_nonneg_right (abs_roundEven_sub_le (q / 2 ^ Q)) hpow.le
    linarith
  have hlast : (2 : ℚ) ^ Q ≤ 2 * (|q| * unitRoundoff) + 2 * underflowError := by
    have hlog := Int.zpow_log_le_self (b := 2) (by norm_num) (abs_pos.mpr hq)
    rw [Nat.cast_ofNat] at hlog
    have hu := unitRoundoff_pos
    have hη := underflowError_pos
    rw [← hQ, quantumExponent]
    rcases max_choice (Int.log 2 |q| - 52) (-1074) with h | h <;> rw [h]
    · have hrel : (2 : ℚ) ^ (Int.log 2 |q| - 52) = 2 * (2 ^ Int.log 2 |q| * unitRoundoff) := by
        rw [zpow_sub₀ two_ne_zero, zpow_ofNat, unitRoundoff, pow_succ]
        field_simp
      have hle : 2 * (2 ^ Int.log 2 |q| * unitRoundoff) ≤ 2 * (|q| * unitRoundoff) := by gcongr
      linarith
    · have hrel : (2 : ℚ) ^ (-1074 : ℤ) = 2 * underflowError := by
        rw [zpow_neg, zpow_ofNat, underflowError, pow_succ]
        field_simp
      have hrest : 0 ≤ 2 * (|q| * unitRoundoff) := by positivity
      linarith
  linarith

/-! ### Integers -/

theorem roundNearest_natCast {n : ℕ} (hn : n ≤ 2 ^ 53) : roundNearest n = n := by
  rcases hn.lt_or_eq with hlt | rfl
  · rcases Nat.eq_zero_or_pos n with rfl | hpos
    · simp
    have hq : (0 : ℚ) < n := by exact_mod_cast hpos
    have hlog : Int.log 2 (n : ℚ) < 53 := by
      rw [← Int.lt_zpow_iff_log_lt (by norm_num) hq, Nat.cast_ofNat, zpow_ofNat]
      exact_mod_cast hlt
    obtain ⟨k, hk⟩ : ∃ k : ℕ, quantumExponent n = -k :=
      ⟨(-quantumExponent n).toNat, by rw [quantumExponent_of_pos hq]; omega⟩
    have hscaled : (n : ℚ) / 2 ^ (-(k : ℤ)) = ((n * 2 ^ k : ℕ) : ℤ) := by
      rw [zpow_neg, zpow_natCast, div_inv_eq_mul]
      push_cast
      rfl
    rw [roundNearest, hk, hscaled, roundEven_intCast, zpow_neg, zpow_natCast]
    push_cast
    field_simp
  · have hdyadic := roundNearest_dyadic (m := 2 ^ 52) (e := 1) (by norm_num) (by norm_num)
      (.inl le_rfl)
    have hval : ((2 ^ 52 : ℕ) : ℚ) * 2 ^ (1 : ℤ) = ((2 ^ 53 : ℕ) : ℚ) := by norm_num
    rwa [hval] at hdyadic

@[simp] theorem roundNearest_one : roundNearest 1 = 1 := by
  simpa using roundNearest_natCast (n := 1) (by norm_num)

/-- Past `2 ^ (53 + n)` the doubles are `2 ^ (n + 1)` apart: `2 ^ (53 + n) + 2 ^ n` is a tie,
and goes to the even `2 ^ (53 + n)`. -/
theorem roundNearest_two_pow_add_tie (n : ℕ) :
    roundNearest (2 ^ (53 + n) + 2 ^ n) = 2 ^ (53 + n) := by
  have hq : (0 : ℚ) < 2 ^ (53 + n) + 2 ^ n := by positivity
  have hlog : Int.log 2 ((2 : ℚ) ^ (53 + n) + 2 ^ n) = 53 + n := by
    apply le_antisymm
    · rw [← Int.lt_add_one_iff, ← Int.lt_zpow_iff_log_lt (by norm_num) hq,
        show (53 + n : ℤ) + 1 = ((54 + n : ℕ) : ℤ) by push_cast; ring, Nat.cast_ofNat, zpow_natCast,
        pow_add, pow_add]
      have : (1 : ℚ) ≤ 2 ^ n := one_le_pow₀ (by norm_num)
      nlinarith
    · rw [← Int.zpow_le_iff_le_log (by norm_num) hq,
        show (53 + n : ℤ) = ((53 + n : ℕ) : ℤ) by push_cast; ring, Nat.cast_ofNat, zpow_natCast]
      linarith [pow_pos (two_pos : (0 : ℚ) < 2) n]
  have hQ : quantumExponent (2 ^ (53 + n) + 2 ^ n) = n + 1 := by
    rw [quantumExponent_of_pos hq, hlog]
    omega
  have hdiv : ((2 : ℚ) ^ (53 + n) + 2 ^ n) / 2 ^ ((n : ℤ) + 1) = 2 ^ 52 + 1 / 2 := by
    rw [show (n : ℤ) + 1 = ((n + 1 : ℕ) : ℤ) by push_cast; ring, zpow_natCast]
    field_simp
    ring
  have hfloor : ⌊(2 : ℚ) ^ 52 + 1 / 2⌋ = 2 ^ 52 := by
    rw [Int.floor_eq_iff]
    norm_num
  rw [roundNearest, hQ, hdiv, roundEven_of_eq (by rw [hfloor]; norm_num), hfloor,
    show (n : ℤ) + 1 = ((n + 1 : ℕ) : ℤ) by push_cast; ring, zpow_natCast]
  push_cast
  ring

theorem roundNearest_two_pow_add_one : roundNearest (2 ^ 53 + 1) = 2 ^ 53 := by
  simpa using roundNearest_two_pow_add_tie 0

theorem roundNearest_le_succ {q : ℚ} {k : ℕ} (hk : q ≤ k + 1) (htop : q ≤ 2 ^ 53 + 1) :
    roundNearest q ≤ k + 1 ∧ roundNearest q ≤ 2 ^ 53 := by
  by_cases hsmall : k + 1 ≤ 2 ^ 53
  · have hround := roundNearest_mono (show q ≤ ((k + 1 : ℕ) : ℚ) by push_cast; exact hk)
    rw [roundNearest_natCast hsmall] at hround
    have hcount : ((k + 1 : ℕ) : ℚ) ≤ 2 ^ 53 := by exact_mod_cast hsmall
    push_cast at hround hcount
    exact ⟨hround, hround.trans hcount⟩
  · have hround := roundNearest_mono htop
    rw [roundNearest_two_pow_add_one] at hround
    have hbig : (2 : ℚ) ^ 53 ≤ k + 1 := by exact_mod_cast (not_le.mp hsmall).le
    exact ⟨hround.trans hbig, hround⟩

end DoublesLineup.Nearest
