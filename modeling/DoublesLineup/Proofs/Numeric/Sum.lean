import DoublesLineup.Proofs.Numeric.Rank
/-! # Sums of doubles and the sign of zero

Adding a zero to a double leaves it as it is, except that `-0 + -0` is `-0` while `-0 + 0` is
`0`; rounding to nearest gives `-0` for no other sum. A running sum that starts from `0.0`
therefore never becomes `-0`, and adding `0` or `-0` to it gives the same double. So two sums
from `0.0` whose summands are pairwise equal but for the sign of a zero are the same double
(`foldl_add_eq`).

The part that takes work is the rounding: the exact sum of two finite doubles is a nonzero
multiple of the least subnormal or exactly zero, and rounding a nonzero one gives a finite
double in normal or subnormal position (`round_finite`), whose bits are no zero.
-/

namespace DoublesLineup.FloatSum

open Float.Model UnpackedFloat

/-! ### Rounding -/

theorem mantissa_shiftRight (em : ExtendedMantissa) (n : ℕ) :
    (em >>> n).mantissa = em.mantissa / 2 ^ n := by
  induction n with
  | zero => simp; rfl
  | succ n ih =>
    show (ExtendedMantissa.shiftRightOne (em >>> n)).mantissa = _
    simp only [ExtendedMantissa.shiftRightOne, ih, Nat.pow_succ, Nat.div_div_eq_div_mul]

theorem roundedMantissa_le (em : ExtendedMantissa) :
    em.mantissa ≤ em.roundedMantissa ∧ em.roundedMantissa ≤ em.mantissa + 1 := by
  obtain ⟨m, _ | _, _ | _⟩ := em <;>
    simp [ExtendedMantissa.roundedMantissa, ExtendedMantissa.accuracy,
      Accuracy.roundToNearestEven]
  omega

theorem targetExponent_binary64 (T : ℤ) :
    Format.binary64.targetExponent T = max (T - 53) (-1074) := rfl

theorem log2_shiftLeft {m : ℕ} (hm : 0 < m) (k : ℕ) : (m <<< k).log2 = m.log2 + k := by
  rw [Nat.shiftLeft_eq]
  have h1 := Nat.log2_self_le (Nat.pos_iff_ne_zero.mp hm)
  have h2 := @Nat.lt_log2_self m
  apply le_antisymm
  · rw [← Nat.lt_succ_iff, Nat.log2_lt (by positivity)]
    calc m * 2 ^ k < 2 ^ (m.log2 + 1) * 2 ^ k := by gcongr
      _ = 2 ^ (m.log2 + k + 1) := by rw [← pow_add]; ring_nf
  · rw [Nat.le_log2 (by positivity), pow_add]
    exact Nat.mul_le_mul_right _ h1

theorem totalExponent_shiftLeft {m : ℕ} (hm : 0 < m) (e : ℤ) (k : ℕ) :
    totalExponent (m <<< k) (e - k) = totalExponent m e := by
  simp only [totalExponent, log2_shiftLeft hm k]
  push_cast
  ring

@[simp] theorem shiftRight_zero (em : ExtendedMantissa) : em >>> 0 = em := rfl

@[simp] theorem roundedMantissa_exact (m : ℕ) :
    (ExtendedMantissa.ofMantissaAndAccuracy m .exact).roundedMantissa = m := rfl

@[simp] theorem mantissa_exact (m : ℕ) :
    (ExtendedMantissa.ofMantissaAndAccuracy m .exact).mantissa = m := rfl

theorem roundWithAccuracy_of_fits {sign : Sign} {m : ℕ} {e : ℤ} (hm : 0 < m)
    (hfit : Format.binary64.targetExponent (totalExponent m e) = e) :
    roundWithAccuracy .binary64 sign m e .exact = .finite sign m e hm := by
  simp only [roundWithAccuracy, shiftToTargetExponent, shiftToExponent, hfit, sub_self,
    Int.toNat_zero, shiftRight_zero, roundedMantissa_exact, mantissa_exact, Nat.cast_zero,
    add_zero]
  rw [dif_neg (by omega)]

theorem settle_rounded {r : ℕ} {E : ℤ} (hE : -1074 ≤ E) (hr₁ : 2 ^ 52 ≤ r) (hr₂ : r ≤ 2 ^ 53) :
    let settled := ExtendedMantissa.ofMantissaAndAccuracy r .exact >>>
      (Format.binary64.targetExponent (totalExponent r E) - E).toNat
    0 < settled.mantissa ∧ settled.mantissa < 2 ^ 53 := by
  have hr0 : r ≠ 0 := by omega
  intro settled
  rw [mantissa_shiftRight, mantissa_exact, targetExponent_binary64, totalExponent]
  rcases Nat.lt_or_ge r (2 ^ 53) with hr | hr
  · -- 53 bits: the mantissa already sits at its target exponent
    have hlog : r.log2 = 52 := by
      have := (Nat.le_log2 hr0).mpr hr₁
      have := (Nat.log2_lt hr0).mpr hr
      omega
    rw [hlog, show (max ((52 : ℕ) + 1 + E - 53) (-1074) - E).toNat = 0 by omega]
    omega
  · -- a carry: one more bit is shifted out
    have hcarry : r = 2 ^ 53 := by omega
    subst hcarry
    rw [show (2 ^ 53 : ℕ).log2 = 53 by decide,
      show (max ((53 : ℕ) + 1 + E - 53) (-1074) - E).toNat = 1 by omega]
    decide

theorem roundWithAccuracy_of_wide {sign : Sign} {M : ℕ} {E : ℤ} (hM : 0 < M) (hE : -1074 ≤ E)
    (hwide : E < Format.binary64.targetExponent (totalExponent M E)) :
    ∃ m e h, roundWithAccuracy .binary64 sign M E .exact = .finite sign m e h ∧
      m < 2 ^ 53 ∧ -1074 ≤ e := by
  have hlo := Nat.log2_self_le (Nat.pos_iff_ne_zero.mp hM)
  have hhi := @Nat.lt_log2_self M
  rw [targetExponent_binary64, totalExponent] at hwide
  obtain ⟨j, hj⟩ : ∃ j : ℕ, M.log2 = 52 + j ∧ 0 < j := ⟨M.log2 - 52, by omega, by omega⟩
  have hq : 2 ^ 52 ≤ M / 2 ^ j ∧ M / 2 ^ j < 2 ^ 53 := by
    rw [hj.1, pow_add] at hlo
    rw [hj.1, show 52 + j + 1 = 53 + j by omega, pow_add] at hhi
    exact ⟨(Nat.le_div_iff_mul_le (by positivity)).mpr hlo,
      (Nat.div_lt_iff_lt_mul (by positivity)).mpr hhi⟩
  have hshift : (Format.binary64.targetExponent (totalExponent M E) - E).toNat = j := by
    rw [targetExponent_binary64, totalExponent]
    omega
  simp only [roundWithAccuracy, shiftToTargetExponent, shiftToExponent, hshift]
  have hround := roundedMantissa_le (ExtendedMantissa.ofMantissaAndAccuracy M .exact >>> j)
  rw [mantissa_shiftRight, mantissa_exact] at hround
  have hexp : ∀ r : ℕ, -1074 ≤ E + j +
      (Format.binary64.targetExponent (totalExponent r (E + j)) - (E + j)).toNat := by
    intro r
    omega
  obtain ⟨hpos, hlt⟩ := settle_rounded (E := E + j)
    (r := (ExtendedMantissa.ofMantissaAndAccuracy M .exact >>> j).roundedMantissa)
    (by omega) (by omega) (by omega)
  split
  · rename_i hzero
    exact absurd hzero (Nat.pos_iff_ne_zero.mp hpos)
  · exact ⟨_, _, hpos, rfl, hlt, hexp _⟩

theorem round_finite (sign : Sign) {M : ℕ} {E : ℤ} (hM : 0 < M) (hE : -1074 ≤ E) :
    ∃ m e h, UnpackedFloat.round .binary64 sign M E = .finite sign m e h ∧
      m < 2 ^ 53 ∧ -1074 ≤ e := by
  unfold UnpackedFloat.round decreaseExponent
  by_cases hfit : Format.binary64.targetExponent (totalExponent M E) ≤ E
  · -- the mantissa is shifted up to the target exponent, and nothing is lost
    have hk : ((E - Format.binary64.targetExponent (totalExponent M E)).toNat : ℤ) =
        E - Format.binary64.targetExponent (totalExponent M E) := by omega
    have hpos : 0 < M <<< (E - Format.binary64.targetExponent (totalExponent M E)).toNat := by
      rw [Nat.shiftLeft_eq]
      positivity
    refine ⟨_, _, hpos, roundWithAccuracy_of_fits hpos ?_, ?_, by
      rw [targetExponent_binary64] at hk ⊢; omega⟩
    · rw [totalExponent_shiftLeft hM]
      omega
    · rw [← Nat.log2_lt (by omega), log2_shiftLeft hM]
      have := @Nat.lt_log2_self M
      rw [targetExponent_binary64, totalExponent] at hk ⊢
      omega
  · have hk : (E - Format.binary64.targetExponent (totalExponent M E)).toNat = 0 := by omega
    simp only [hk, Nat.shiftLeft_zero, Nat.cast_zero, sub_zero]
    exact roundWithAccuracy_of_wide hM hE (by omega)

/-! ### Packing -/

theorem unpack_packComponents_zero {s t : Sign} {E : BitVec 11} {M : BitVec 52}
    (h : UnpackedFloat.unpack .binary64 (packComponents .binary64 s E M) = .zero t) :
    E = 0#11 ∧ M = 0#52 := by
  unfold UnpackedFloat.unpack at h
  simp only [unpackExponent_packComponents, unpackMantissa_packComponents] at h
  split_ifs at h with hinf hnan hzero hm
  exact ⟨hzero, hm⟩

theorem unpack_pack_finite_ne_zero {s t : Sign} {m : ℕ} {e : ℤ} (hm : 0 < m)
    (hsmall : m < 2 ^ 53) (he : -1074 ≤ e) :
    UnpackedFloat.unpack .binary64 (pack .binary64 (.finite s m e hm)) ≠ .zero t := by
  intro h
  rw [UnpackedFloat.pack] at h
  have hbias : (e + (Format.binary64.exponentBias : ℤ) +
      (Format.binary64.mantissaBitsWithoutImplicit : ℤ)).toNat = (e + 1075).toNat := by
    show (e + (1023 : ℕ) + (52 : ℕ)).toNat = _
    omega
  have hexpBits : (2 : ℕ) ^ Format.binary64.exponentBits = 2048 := rfl
  have hmantBits : Format.binary64.mantissaBits = 53 := rfl
  simp only [hbias, hexpBits, hmantBits] at h
  split_ifs at h with hover hnormal
  · -- an overflow packs as an infinity, whose exponent field is all ones
    exact absurd (unpack_packComponents_zero h).1 (by decide)
  · -- a normal double has a biased exponent of at least one
    have hE := congrArg BitVec.toNat (unpack_packComponents_zero h).1
    simp at hE
    omega
  · -- a subnormal mantissa is below `2 ^ 52` and keeps a bit set
    have hM := congrArg BitVec.toNat (unpack_packComponents_zero h).2
    simp at hM
    have hlog : m.log2 < 52 := by
      have := (Nat.log2_lt (by omega)).mpr hsmall
      omega
    have := (Nat.log2_lt (by omega)).mp hlog
    omega

/-- A finite double in normal or subnormal position: a mantissa of at most 53 bits at an
exponent no lower than the least one. -/
def Placed : UnpackedFloat → Prop
  | .finite _ m e _ => m < 2 ^ 53 ∧ -1074 ≤ e
  | _ => True

theorem placed_unpack (b : BitVec Format.binary64.numBits) :
    Placed (UnpackedFloat.unpack .binary64 b) := by
  unfold UnpackedFloat.unpack
  have hmant : (unpackMantissa b).toNat < 2 ^ 52 := (unpackMantissa b).isLt
  have hexp : (unpackExponent b).toNat < 2 ^ 11 := (unpackExponent b).isLt
  dsimp only
  split_ifs with hinf hnan hzero hm
  · trivial
  · trivial
  · trivial
  · -- a subnormal sits at the least exponent
    refine ⟨by omega, ?_⟩
    have : (unpackExponent b).toNat = 0 := by simp [hzero]
    show -1074 ≤ ((unpackExponent b).toNat : ℤ) - ((1023 : ℕ) + (52 : ℕ)) + 1
    omega
  · -- a normal double's mantissa has its leading one restored
    have hne : (unpackExponent b).toNat ≠ 0 := fun h0 =>
      hzero (BitVec.eq_of_toNat_eq (by simpa using h0))
    have happ : (1#1 ++ unpackMantissa b).toNat = 2 ^ 52 + (unpackMantissa b).toNat := by
      rw [BitVec.toNat_append, ← Nat.shiftLeft_add_eq_or_of_lt (unpackMantissa b).isLt]
      simp [Nat.shiftLeft_eq]
    refine ⟨by rw [happ]; omega, ?_⟩
    show -1074 ≤ ((unpackExponent b).toNat : ℤ) - ((1023 : ℕ) + (52 : ℕ))
    omega

/-- What a sum can be when its first operand is no negative zero: not a number, an infinity,
positive zero, or a finite double in place. -/
def NotNegZeroSum (w : UnpackedFloat) : Prop :=
  w = .notANumber ∨ (∃ s, w = .infinity s) ∨ w = .zero .positive ∨
    ∃ s m e h, w = .finite s m e h ∧ m < 2 ^ 53 ∧ -1074 ≤ e

theorem unpack_pack_ne_negZero {w : UnpackedFloat} (hw : NotNegZeroSum w) :
    UnpackedFloat.unpack .binary64 (pack .binary64 w) ≠ .zero .negative := by
  rcases hw with rfl | ⟨s, rfl⟩ | rfl | ⟨s, m, e, hm, rfl, hsmall, he⟩
  · nofun
  · cases s <;> nofun
  · nofun
  · exact unpack_pack_finite_ne_zero hm hsmall he

theorem normalize_notNegZero (M : ℤ) {E : ℤ} (hE : -1074 ≤ E) :
    NotNegZeroSum (UnpackedFloat.normalize .binary64 M E .positive) := by
  unfold UnpackedFloat.normalize
  split
  · rename_i hlt
    obtain ⟨m, e, hm, heq, hsmall, he⟩ :=
      round_finite .negative (M := (-M).toNat) (by rw [Int.compare_eq_lt] at hlt; omega) hE
    exact .inr (.inr (.inr ⟨_, m, e, hm, heq, hsmall, he⟩))
  · exact .inr (.inr (.inl rfl))
  · rename_i hgt
    obtain ⟨m, e, hm, heq, hsmall, he⟩ :=
      round_finite .positive (M := M.toNat) (by rw [Int.compare_eq_gt] at hgt; omega) hE
    exact .inr (.inr (.inr ⟨_, m, e, hm, heq, hsmall, he⟩))

theorem add_notNegZero {u v : UnpackedFloat} (hu : u ≠ .zero .negative) (hpu : Placed u)
    (hpv : Placed v) : NotNegZeroSum (UnpackedFloat.add .binary64 u v) := by
  rcases u with ⟨_ | _⟩ | _ | ⟨_ | _⟩ | ⟨su, mu, eu, hmu⟩ <;>
  rcases v with ⟨_ | _⟩ | _ | ⟨_ | _⟩ | ⟨sv, mv, ev, hmv⟩
  all_goals first
    | exact absurd rfl hu
    | exact .inl rfl
    | exact .inr (.inl ⟨_, rfl⟩)
    | exact .inr (.inr (.inl rfl))
    | exact .inr (.inr (.inr ⟨_, _, _, _, rfl, hpv⟩))
    | exact .inr (.inr (.inr ⟨_, _, _, _, rfl, hpu⟩))
    | skip
  exact normalize_notNegZero _ (le_min hpu.2 hpv.2)

theorem add_zero_sign_irrelevant {u : UnpackedFloat} (hu : u ≠ .zero .negative) (t : Sign) :
    UnpackedFloat.add .binary64 u (.zero t) = UnpackedFloat.add .binary64 u (.zero .positive) := by
  rcases u with ⟨_ | _⟩ | _ | ⟨_ | _⟩ | ⟨su, mu, eu, hmu⟩ <;> cases t
  all_goals first | rfl | exact absurd rfl hu

/-! ### Sums of doubles -/

theorem unpack_add (a b : Float) :
    (a + b).toModel.unpack = UnpackedFloat.unpack .binary64
      (pack .binary64 (UnpackedFloat.add .binary64 a.toModel.unpack b.toModel.unpack)) := rfl

theorem add_eq_pack (a b : Float) :
    a + b = Float.ofModel (pack (UnpackedFloat.add .binary64 a.toModel.unpack b.toModel.unpack)) :=
  rfl

theorem add_eq_of_unpack (s : Float) {a b : Float} (h : a.toModel.unpack = b.toModel.unpack) :
    s + a = s + b := by
  rw [add_eq_pack, add_eq_pack, h]

theorem add_ne_negZero {s : Float} (hs : s.toModel.unpack ≠ .zero .negative) (p : Float) :
    (s + p).toModel.unpack ≠ .zero .negative := by
  rw [unpack_add]
  exact unpack_pack_ne_negZero (add_notNegZero hs (placed_unpack _) (placed_unpack _))

/-- Two doubles that are equal but for the sign of a zero. -/
def SameUpToZeroSign (x y : Float) : Prop :=
  x.toModel.unpack = y.toModel.unpack ∨
    (∃ t, x.toModel.unpack = .zero t) ∧ ∃ t, y.toModel.unpack = .zero t

theorem add_eq_of_sameUpToZeroSign {s x y : Float} (hs : s.toModel.unpack ≠ .zero .negative)
    (h : SameUpToZeroSign x y) : s + x = s + y := by
  rcases h with h | ⟨⟨t, hx⟩, ⟨t', hy⟩⟩
  · exact add_eq_of_unpack s h
  · rw [add_eq_pack, add_eq_pack, hx, hy, add_zero_sign_irrelevant hs t,
      add_zero_sign_irrelevant hs t']

theorem zero_unpack : (0.0 : Float).toModel.unpack = .zero .positive := rfl

/-- Sums from a double that is no negative zero, of summands pairwise equal but for the sign of
a zero, are the same double. -/
theorem foldl_add_eq {α β : Type} {f : α → Float} {g : β → Float} :
    ∀ {xs : List α} {ys : List β}, List.Forall₂ (fun a b => SameUpToZeroSign (f a) (g b)) xs ys →
      ∀ {s : Float}, s.toModel.unpack ≠ .zero .negative →
        xs.foldl (fun w a => w + f a) s = ys.foldl (fun w b => w + g b) s
  | [], [], .nil, _, _ => rfl
  | _ :: _, _ :: _, .cons hxy hrest, s, hs => by
    simp only [List.foldl_cons]
    rw [add_eq_of_sameUpToZeroSign hs hxy]
    exact foldl_add_eq hrest (add_ne_negZero hs _)

theorem sameUpToZeroSign_of_le_of_le {a b : Float} (hab : a ≤ b) (hba : b ≤ a) :
    SameUpToZeroSign a b :=
  FloatOrder.unpack_eq_of_le_of_le hab hba

end DoublesLineup.FloatSum
