import Mathlib.Algebra.Order.Field.Power
import Mathlib.Algebra.Order.Field.Rat
import Mathlib.Tactic.GCongr
import Mathlib.Tactic.Positivity
import DoublesLineup.Proofs.Numeric.Rank
/-! # The exact value of a double

A finite double is its signed mantissa times a power of two (`exactValue`); reading arithmetic
as exact means reading each double as that rational. Two facts make this reading agree with the
orders a program uses on doubles:

* the value is monotone in the order of numbers (`exactValue_le_of_le`), since `unpack` yields a
  mantissa below `2 ^ 53` that is at least `2 ^ 52` unless the exponent is the least one;
* the total order of bit patterns (`totalKey`) refines the order of numbers
  (`le_of_totalKey_le`): a double of sign bit clear stands as its remaining 63 bits do, and one
  of sign bit set as their mirror image.

Both rest on `unpack` read off the three bit fields of a double (`unpack_eq_ofFields`).
-/

namespace DoublesLineup

open Float.Model UnpackedFloat FloatOrder

/-! ### The bit fields -/

/-- A double from its sign, biased exponent and stored mantissa. -/
def ofFields (s : Sign) (E M : ℕ) : UnpackedFloat :=
  if E = 2047 then (if M = 0 then .infinity s else .notANumber)
  else if E = 0 then (if h : M = 0 then .zero s else .finite s M (-1074) (Nat.pos_of_ne_zero h))
  else .finite s (2 ^ 52 + M) (E - 1075) (by positivity)

theorem toNat_one_append {w : ℕ} (v : BitVec w) : (1#1 ++ v).toNat = 2 ^ w + v.toNat := by
  rw [BitVec.toNat_append, ← Nat.shiftLeft_add_eq_or_of_lt v.isLt]
  simp [Nat.shiftLeft_eq]

theorem unpack_eq_ofFields (b : BitVec Format.binary64.numBits) :
    unpack .binary64 b =
      ofFields (if b.toNat < 2 ^ 63 then .positive else .negative) (b.toNat / 2 ^ 52 % 2 ^ 11)
        (b.toNat % 2 ^ 52) := by
  have hb : b.toNat < 2 ^ 64 := b.isLt
  have hM : (unpackMantissa b).toNat = b.toNat % 2 ^ 52 := by
    simp [unpackMantissa, BitVec.extractLsb_toNat]
  have hE : (unpackExponent b).toNat = b.toNat / 2 ^ 52 % 2 ^ 11 := by
    simp [unpackExponent, BitVec.extractLsb_toNat, Nat.shiftRight_eq_div_pow]
  have hS : (unpackSign b).toNat = b.toNat / 2 ^ 63 := by
    simp [unpackSign, BitVec.extractLsb_toNat, Nat.shiftRight_eq_div_pow]
    omega
  have hsign : Sign.ofBitVec (unpackSign b) =
      if b.toNat < 2 ^ 63 then .positive else .negative := by
    have hzero : unpackSign b = 0#1 ↔ b.toNat < 2 ^ 63 := by
      rw [BitVec.toNat_eq, hS, BitVec.toNat_zero]
      omega
    simp only [Sign.ofBitVec, hzero]
  have hbias : ((Format.binary64.exponentBias : ℕ) : ℤ) = 1023 := rfl
  rw [← hsign]
  unfold UnpackedFloat.unpack ofFields
  simp only [BitVec.toNat_eq, hM, hE, toNat_one_append, hbias,
    show (-1#11).toNat = 2047 from rfl, BitVec.toNat_zero]
  split_ifs
  · rfl
  · rfl
  · rfl
  · -- a subnormal has the least exponent
    congr 1
    omega
  · rfl

theorem unpack_toModel (x : Float) :
    x.toModel.unpack = ofFields (if x.toBits.toNat < 2 ^ 63 then .positive else .negative)
      (x.toBits.toNat / 2 ^ 52 % 2 ^ 11) (x.toBits.toNat % 2 ^ 52) :=
  unpack_eq_ofFields _

theorem toNat_totalKey (x : Float) :
    (totalKey x).toNat = if x.toBits.toNat < 2 ^ 63 then x.toBits.toNat + 2 ^ 63
      else 2 ^ 64 - 1 - x.toBits.toNat := by
  have hx := UInt64.toNat_lt x.toBits
  unfold totalKey
  dsimp only
  have hsign : x.toBits < 0x8000000000000000 ↔ x.toBits.toNat < 2 ^ 63 := UInt64.lt_iff_toNat_lt
  by_cases h : x.toBits.toNat < 2 ^ 63
  · rw [if_pos (hsign.mpr h), if_pos h, UInt64.toNat_add]
    simp only [UInt64.reduceToNat]
    omega
  · rw [if_neg (mt hsign.mp h), if_neg h, UInt64.toNat_sub]
    simp only [UInt64.reduceToNat]
    omega

/-! ### Canonical form -/

/-- What `unpack` yields of a finite double: a mantissa below `2 ^ 53` that is at least `2 ^ 52`
unless the exponent is the least one. -/
def Canonical : UnpackedFloat → Prop
  | .finite _ m e _ => m < 2 ^ 53 ∧ -1074 ≤ e ∧ (2 ^ 52 ≤ m ∨ e = -1074)
  | _ => True

theorem canonical_ofFields (s : Sign) {E M : ℕ} (hM : M < 2 ^ 52) :
    Canonical (ofFields s E M) := by
  unfold ofFields
  split_ifs with hinf hsub hzero
  · trivial
  · trivial
  · trivial
  · -- a subnormal: the stored mantissa at the least exponent
    exact ⟨by omega, le_rfl, .inr rfl⟩
  · -- a normal double: the implicit leading bit above the stored mantissa
    exact ⟨by omega, by omega, .inl (by omega)⟩

theorem canonical_unpack (x : Float) : Canonical x.toModel.unpack := by
  rw [unpack_toModel]
  exact canonical_ofFields _ (Nat.mod_lt _ (by positivity))

/-! ### The exact value -/

/-- The exact value of an unpacked double. An infinity or not a number has no value, and is read
as zero. -/
def unpackedValue : UnpackedFloat → ℚ
  | .finite s m e _ => (s.apply m : ℚ) * 2 ^ e
  | _ => 0

/-- The exact value of a double. -/
def exactValue (x : Float) : ℚ := unpackedValue x.toModel.unpack

@[simp] theorem exactValue_zero : exactValue 0.0 = 0 := rfl

theorem lexCompare_ne_gt_iff {a b c a' b' c' : ℤ} :
    lexCompare (a, b, c) (a', b', c') ≠ .gt ↔ a < a' ∨ a = a' ∧ (b < b' ∨ b = b' ∧ c ≤ c') := by
  simp only [lexCompare, ne_eq, Ordering.then_eq_gt, Int.compare_eq_gt, Int.compare_eq_eq]
  omega

theorem lexCompare_eq_lt_iff {a b c a' b' c' : ℤ} :
    lexCompare (a, b, c) (a', b', c') = .lt ↔ a < a' ∨ a = a' ∧ (b < b' ∨ b = b' ∧ c < c') := by
  simp only [lexCompare, Ordering.then_eq_lt, Int.compare_eq_lt, Int.compare_eq_eq]

theorem scaled_lt_scaled {m₁ m₂ : ℕ} {e₁ e₂ : ℤ} (hm₁ : m₁ < 2 ^ 53)
    (hm₂ : 2 ^ 52 ≤ m₂ ∨ e₂ = -1074) (he₁ : -1074 ≤ e₁) (h : e₁ < e₂ ∨ e₁ = e₂ ∧ m₁ < m₂) :
    (m₁ : ℚ) * 2 ^ e₁ < m₂ * 2 ^ e₂ := by
  rcases h with hlt | ⟨rfl, hlt⟩
  · -- a larger exponent is a normal double, at least the smaller binade's top
    have hm₂' : (2 : ℚ) ^ 52 ≤ m₂ := by
      rcases hm₂ with hm₂ | rfl
      · exact_mod_cast hm₂
      · omega
    calc (m₁ : ℚ) * 2 ^ e₁ < 2 ^ 53 * 2 ^ e₁ := by
          gcongr
          exact_mod_cast hm₁
      _ = 2 ^ 52 * 2 ^ (e₁ + 1) := by
          rw [zpow_add₀ two_ne_zero, zpow_one]
          ring
      _ ≤ 2 ^ 52 * 2 ^ e₂ := by
          gcongr
          · norm_num
          · omega
      _ ≤ m₂ * 2 ^ e₂ := by gcongr
  · gcongr

theorem scaled_le_scaled {m₁ m₂ : ℕ} {e₁ e₂ : ℤ} (hm₁ : m₁ < 2 ^ 53)
    (hm₂ : 2 ^ 52 ≤ m₂ ∨ e₂ = -1074) (he₁ : -1074 ≤ e₁) (h : e₁ < e₂ ∨ e₁ = e₂ ∧ m₁ ≤ m₂) :
    (m₁ : ℚ) * 2 ^ e₁ ≤ m₂ * 2 ^ e₂ := by
  rcases h with hlt | ⟨rfl, hle⟩
  · exact (scaled_lt_scaled hm₁ hm₂ he₁ (.inl hlt)).le
  · gcongr

theorem unpackedValue_le_of_rank {u v : UnpackedFloat} (hu : Canonical u) (hv : Canonical v)
    (hu' : u.isFinite = true) (hv' : v.isFinite = true) (h : lexCompare (rank u) (rank v) ≠ .gt) :
    unpackedValue u ≤ unpackedValue v := by
  rcases u with _ | _ | _ | ⟨_ | _, m₁, e₁, _⟩ <;> rcases v with _ | _ | _ | ⟨_ | _, m₂, e₂, _⟩ <;>
    simp only [UnpackedFloat.isFinite, Bool.false_eq_true] at hu' hv' <;>
    simp only [rank, lexCompare_ne_gt_iff, unpackedValue, Canonical, Sign.apply, Int.cast_neg,
      Int.cast_natCast, neg_mul] at hu hv h ⊢
  · exact le_rfl
  · omega
  · positivity
  · exact neg_nonpos.mpr (by positivity)
  · exact neg_le_neg (scaled_le_scaled hv.1 hu.2.2 hv.2.1 (by omega))
  · exact (neg_nonpos.mpr (by positivity)).trans (by positivity)
  · omega
  · omega
  · exact scaled_le_scaled hu.1 hv.2.2 hu.2.1 (by omega)

theorem unpackedValue_lt_of_rank {u v : UnpackedFloat} (hu : Canonical u) (hv : Canonical v)
    (hu' : u.isFinite = true) (hv' : v.isFinite = true) (h : lexCompare (rank u) (rank v) = .lt) :
    unpackedValue u < unpackedValue v := by
  rcases u with _ | _ | _ | ⟨_ | _, m₁, e₁, _⟩ <;> rcases v with _ | _ | _ | ⟨_ | _, m₂, e₂, _⟩ <;>
    simp only [UnpackedFloat.isFinite, Bool.false_eq_true] at hu' hv' <;>
    simp only [rank, lexCompare_eq_lt_iff, unpackedValue, Canonical, Sign.apply, Int.cast_neg,
      Int.cast_natCast, neg_mul] at hu hv h ⊢
  · omega
  · omega
  · positivity
  · exact neg_lt_zero.mpr (by positivity)
  · exact neg_lt_neg (scaled_lt_scaled hv.1 hu.2.2 hv.2.1 (by omega))
  · exact (neg_lt_zero.mpr (by positivity)).trans (by positivity)
  · omega
  · omega
  · exact scaled_lt_scaled hu.1 hv.2.2 hu.2.1 (by omega)

/-- On finite doubles the exact value is monotone. -/
theorem exactValue_le_of_le {x y : Float} (h : x ≤ y) (hx : x.isFinite = true)
    (hy : y.isFinite = true) : exactValue x ≤ exactValue y := by
  obtain ⟨hxn, hyn⟩ := isNaN_eq_false_of_le h
  rw [le_iff_rank hxn hyn] at h
  exact unpackedValue_le_of_rank (canonical_unpack x) (canonical_unpack y) hx hy h

/-! ### The total order refines the order of numbers -/

/-- The rank of a double of sign bit clear, read off its other 63 bits `n`. -/
def magnitudeRank (n : ℕ) : ℤ × ℤ × ℤ :=
  if n / 2 ^ 52 = 2047 then (2, 0, 0)
  else if n = 0 then (0, 0, 0)
  else if n / 2 ^ 52 = 0 then (1, -1074, n)
  else (1, n / 2 ^ 52 - 1075, 2 ^ 52 + n % 2 ^ 52)

theorem lexCompare_neg (x y : ℤ × ℤ × ℤ) : lexCompare (-x) (-y) = lexCompare y x := by
  simp only [lexCompare, Prod.fst_neg, Prod.snd_neg, int_compare_neg]

section Fields

variable {E M : ℕ} (hM : M < 2 ^ 52) (hnan : E ≠ 2047 ∨ M = 0)
include hM hnan

theorem rank_ofFields_positive :
    rank (ofFields .positive E M) = magnitudeRank (E * 2 ^ 52 + M) := by
  unfold ofFields magnitudeRank
  split_ifs <;> simp only [rank, Prod.mk.injEq, true_and] <;> omega

theorem rank_ofFields_negative :
    rank (ofFields .negative E M) = -magnitudeRank (E * 2 ^ 52 + M) := by
  unfold ofFields magnitudeRank
  split_ifs <;> simp only [rank, Prod.neg_mk, Prod.mk.injEq, true_and, neg_zero] <;> omega

end Fields

theorem magnitudeRank_mono {n₁ n₂ : ℕ} (h : n₁ ≤ n₂) (hn₂ : n₂ < 2 ^ 63) :
    lexCompare (magnitudeRank n₁) (magnitudeRank n₂) ≠ .gt := by
  unfold magnitudeRank
  split_ifs <;> simp only [lexCompare_ne_gt_iff, true_and] <;> omega

theorem magnitudeRank_nonneg (n : ℕ) : lexCompare (0, 0, 0) (magnitudeRank n) ≠ .gt := by
  unfold magnitudeRank
  split_ifs <;> simp only [lexCompare_ne_gt_iff, true_and] <;> omega

theorem fields_of_isNaN_eq_false {x : Float} (hx : x.isNaN = false) :
    x.toBits.toNat / 2 ^ 52 % 2 ^ 11 ≠ 2047 ∨ x.toBits.toNat % 2 ^ 52 = 0 := by
  by_contra hfields
  rw [not_or, not_not] at hfields
  apply unpack_ne_nan hx
  rw [unpack_toModel]
  unfold ofFields
  rw [if_pos hfields.1, if_neg hfields.2]

theorem rank_toModel {x : Float} (hx : x.isNaN = false) :
    rank x.toModel.unpack = if x.toBits.toNat < 2 ^ 63 then magnitudeRank x.toBits.toNat
      else -magnitudeRank (x.toBits.toNat - 2 ^ 63) := by
  have hnan := fields_of_isNaN_eq_false hx
  have hbits := UInt64.toNat_lt x.toBits
  have hM : x.toBits.toNat % 2 ^ 52 < 2 ^ 52 := Nat.mod_lt _ (by positivity)
  rw [unpack_toModel]
  split_ifs with hs
  · have hsplit : x.toBits.toNat / 2 ^ 52 % 2 ^ 11 * 2 ^ 52 + x.toBits.toNat % 2 ^ 52 =
        x.toBits.toNat := by omega
    rw [rank_ofFields_positive hM hnan, hsplit]
  · have hsplit : x.toBits.toNat / 2 ^ 52 % 2 ^ 11 * 2 ^ 52 + x.toBits.toNat % 2 ^ 52 =
        x.toBits.toNat - 2 ^ 63 := by omega
    rw [rank_ofFields_negative hM hnan, hsplit]

theorem le_of_totalKey_le {x y : Float} (hx : x.isNaN = false) (hy : y.isNaN = false)
    (h : totalKey x ≤ totalKey y) : x ≤ y := by
  have hkey := UInt64.le_iff_toNat_le.mp h
  rw [toNat_totalKey, toNat_totalKey] at hkey
  have hybits := UInt64.toNat_lt y.toBits
  rw [le_iff_rank hx hy, rank_toModel hx, rank_toModel hy]
  split_ifs at hkey ⊢ with hxs hys hys
  · -- both sign bits clear: the magnitudes are in order
    exact magnitudeRank_mono (by omega) hys
  · omega
  · -- a negative double is below every positive one
    refine lexCompare_le_trans ?_ (magnitudeRank_nonneg _)
    rw [← lexCompare_neg, neg_neg]
    exact magnitudeRank_nonneg _
  · -- both sign bits set: the magnitudes are in the reverse order
    rw [lexCompare_neg]
    have hxbits := UInt64.toNat_lt x.toBits
    exact magnitudeRank_mono (by omega) (by omega)

end DoublesLineup
