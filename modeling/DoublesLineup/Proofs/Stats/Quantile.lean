import DoublesLineup.Proofs.Numeric.Extended
import DoublesLineup.Proofs.Score.Reorder
import DoublesLineup.Proofs.Optimizer.Total
/-! # The quantile is an order statistic

`Sample.quantile xs q` sorts the sample in the total order of doubles and reads the entry of rank
`k`, where `k` is `q` times the sample's size rounded up, saturated into the naturals below
`2 ^ 64` and kept in `[1, n]` (`nearestRank`). Rounding up reads the product's extended value:
the integer at or above it, with not-a-number at zero (`ceilIndex_eq`).

The main statement (`quantile_is_order_statistic`) is that the quantile is the `k`-th smallest
entry in the total order: fewer than `k` entries lie below it and at least `k` at or below it
(`IsKthSmallest`), and no other double is. So it is an entry, it lies between the least and the
greatest entry, and it depends on the entries and not on their order. It grows with `q`: the
product with the size is monotone in `q`, infinities included, and so is rounding up.
-/

namespace DoublesLineup

open Float.Model UnpackedFloat Nearest Rounded Extended

/-! ### Rounding up to an index -/

theorem ceil_natCast_div_two_pow (m k : ℕ) :
    ⌈(m : ℚ) / 2 ^ k⌉ = ((m + 2 ^ k - 1) / 2 ^ k : ℕ) := by
  obtain ⟨d, hd⟩ : ∃ d, d = 2 ^ k := ⟨_, rfl⟩
  have hpos : 0 < d := hd ▸ Nat.two_pow_pos k
  have hdq : (2 : ℚ) ^ k = d := by rw [hd]; push_cast; rfl
  rw [hdq, ← hd]
  obtain ⟨c, hc⟩ : ∃ c, c = (m + d - 1) / d := ⟨_, rfl⟩
  rw [← hc]
  have hsplit := Nat.div_add_mod (m + d - 1) d
  have hmod := Nat.mod_lt (m + d - 1) hpos
  rw [← hc, mul_comm] at hsplit
  have hlt : c * d < m + d := by omega
  have hge : m ≤ c * d := by omega
  have hdq' : (0 : ℚ) < d := by exact_mod_cast hpos
  rw [Int.ceil_eq_iff]
  constructor
  · rw [lt_div_iff₀ hdq']
    have hcast : ((c * d : ℕ) : ℚ) < ((m + d : ℕ) : ℚ) := by exact_mod_cast hlt
    push_cast at hcast ⊢
    linarith
  · rw [div_le_iff₀ hdq']
    exact_mod_cast hge

theorem ceil_scaled (m : ℕ) (e : ℤ) :
    ⌈(m : ℚ) * 2 ^ e⌉.toNat =
      if e < 0 then (m + 2 ^ (-e).toNat - 1) / 2 ^ (-e).toNat else m * 2 ^ e.toNat := by
  split_ifs with he
  · have hpow : (2 : ℚ) ^ e = 1 / 2 ^ (-e).toNat := by
      rw [← zpow_natCast, Int.toNat_of_nonneg (by omega), zpow_neg, one_div, inv_inv]
    rw [hpow, mul_one_div, ceil_natCast_div_two_pow, Int.toNat_natCast]
  · have hpow : (m : ℚ) * 2 ^ e = ((m * 2 ^ e.toNat : ℕ) : ℚ) := by
      push_cast
      rw [← zpow_natCast, Int.toNat_of_nonneg (by omega)]
    rw [hpow, Int.ceil_natCast, Int.toNat_natCast]

theorem ceilIndex_eq {x : Float} (hx : x.isNaN = false) :
    ceilIndex x = min ⌈extendedValue x⌉.toNat (2 ^ 64 - 1) := by
  have hn := FloatOrder.unpack_ne_nan hx
  unfold ceilIndex extendedValue
  generalize x.toModel.unpack = u at hn ⊢
  rcases u with ⟨_ | _⟩ | _ | ⟨_ | _⟩ | ⟨_ | _, m, e, hm⟩
  · -- the negative infinity is below every index
    have hceil : ⌈(-2 ^ 1024 : ℚ)⌉ = -2 ^ 1024 := by
      rw [show (-2 ^ 1024 : ℚ) = ((-2 ^ 1024 : ℤ) : ℚ) by
        rw [Int.cast_neg, Int.cast_pow, Int.cast_ofNat], Int.ceil_intCast]
    simp only [extendedUnpacked]
    rw [hceil, Int.toNat_eq_zero.mpr (neg_nonpos.mpr (by positivity))]
    simp
  · -- the positive infinity is above every index
    have hlt : ((2 ^ 64 - 1 : ℕ) : ℚ) < 2 ^ 1024 := by
      have h64 : ((2 ^ 64 - 1 : ℕ) : ℚ) < 2 ^ 64 := by norm_num
      exact h64.trans (pow_lt_pow_right₀ one_lt_two (by norm_num))
    have hbig : 2 ^ 64 - 1 ≤ ⌈(2 ^ 1024 : ℚ)⌉.toNat := by
      refine (Int.le_toNat (Int.ceil_nonneg (by positivity))).mpr (Int.le_ceil_iff.mpr ?_)
      rw [Int.cast_natCast]
      exact (sub_lt_self _ one_pos).trans hlt
    simp only [extendedUnpacked]
    exact (min_eq_right hbig).symm
  · exact absurd rfl hn
  · simp [extendedUnpacked, unpackedValue]
  · simp [extendedUnpacked, unpackedValue]
  · -- a negative number rounds up to zero or below
    have hle : ⌈unpackedValue (.finite .negative m e hm)⌉ ≤ 0 := by
      rw [Int.ceil_le, unpackedValue_negative]
      push_cast
      have : (0 : ℚ) ≤ m * 2 ^ e := by positivity
      linarith
    simp only [extendedUnpacked]
    rw [Int.toNat_eq_zero.mpr hle]
    simp
  · simp only [extendedUnpacked, unpackedValue_positive, ceil_scaled, Nat.pow_eq]

theorem ceilIndex_le (x : Float) : ceilIndex x ≤ 2 ^ 64 - 1 := by
  unfold ceilIndex
  split
  · exact Nat.min_le_right _ _
  · exact le_rfl
  · exact Nat.zero_le _

theorem ceilIndex_mono {x y : Float} (h : x ≤ y) : ceilIndex x ≤ ceilIndex y := by
  obtain ⟨hx, hy⟩ := FloatOrder.isNaN_eq_false_of_le h
  rw [ceilIndex_eq hx, ceilIndex_eq hy]
  exact min_le_min_right _ (Int.toNat_le_toNat (Int.ceil_mono ((le_iff_extendedValue hx hy).mp h)))

/-- The integer at or above a double's extended value, cut into `[0, 2 ^ 64 - 1]`; zero for not
a number. -/
def saturatingCeil (x : Float) : ℕ :=
  if x.isNaN then 0 else min ⌈extendedValue x⌉.toNat (2 ^ 64 - 1)

theorem ceilIndex_eq_saturatingCeil (x : Float) : ceilIndex x = saturatingCeil x := by
  unfold saturatingCeil
  cases hx : x.isNaN
  · exact ceilIndex_eq hx
  · unfold ceilIndex
    rw [UnpackedFloat.isNaN_iff.mp hx]
    simp

/-! ### Scaling by the size of the sample -/

theorem mul_unpack (q c : Float) : (q * c).toModel.unpack =
    UnpackedFloat.unpack .binary64
      (pack .binary64 (UnpackedFloat.mul .binary64 q.toModel.unpack c.toModel.unpack)) := rfl

theorem unpack_pack_nan :
    UnpackedFloat.unpack .binary64 (pack .binary64 .notANumber) = .notANumber := rfl

theorem ceilIndex_mul_of_zero {q c : Float} {s : Sign} (hc : c.toModel.unpack = .zero s) :
    ceilIndex (q * c) = 0 := by
  unfold ceilIndex
  rw [mul_unpack, hc]
  rcases q.toModel.unpack with ⟨_ | _⟩ | _ | ⟨_ | _⟩ | ⟨_ | _, m, e, hm⟩ <;>
    simp [UnpackedFloat.mul, unpack_pack_zero, unpack_pack_nan]

theorem mul_unpack_of_infinity {q c : Float} {s : Sign} {m : ℕ} {e : ℤ} {hm : 0 < m}
    (hq : q.toModel.unpack = .infinity s) (hc : c.toModel.unpack = .finite .positive m e hm) :
    (q * c).toModel.unpack = .infinity s := by
  rw [mul_unpack, hq, hc]
  simp only [UnpackedFloat.mul, unpack_pack_infinity]
  cases s <;> rfl

theorem unpack_of_infinity_le {x y : Float} (hx : x.toModel.unpack = .infinity .positive)
    (h : x ≤ y) : y.toModel.unpack = .infinity .positive := by
  rw [FloatOrder.le_iff, hx] at h
  revert h
  rcases y.toModel.unpack with ⟨_ | _⟩ | _ | ⟨_ | _⟩ | ⟨_ | _, m, e, hm⟩ <;>
    simp [UnpackedFloat.le, UnpackedFloat.compare, FloatOrder.sign_compare_pos_neg]

theorem unpack_of_le_infinity {x y : Float} (hy : y.toModel.unpack = .infinity .negative)
    (h : x ≤ y) : x.toModel.unpack = .infinity .negative := by
  rw [FloatOrder.le_iff, hy] at h
  revert h
  rcases x.toModel.unpack with ⟨_ | _⟩ | _ | ⟨_ | _⟩ | ⟨_ | _, m, e, hm⟩ <;>
    simp [UnpackedFloat.le, UnpackedFloat.compare, FloatOrder.sign_compare_pos_neg]

theorem ceilIndex_mul_mono {q q' c : Float} (hc : c.isFinite = true) (hc₀ : 0.0 ≤ c)
    (h : q ≤ q') : ceilIndex (q * c) ≤ ceilIndex (q' * c) := by
  obtain ⟨hq, hq'⟩ := FloatOrder.isNaN_eq_false_of_le h
  have hcn := isNaN_eq_false_of_isFinite hc
  have hcv : 0 ≤ extendedValue c := by
    simpa using (le_iff_extendedValue rfl hcn).mp hc₀
  have hcf : c.toModel.unpack.isFinite = true := hc
  cases hcu : c.toModel.unpack with
  | notANumber => rw [hcu] at hcf; cases hcf
  | infinity _ => rw [hcu] at hcf; cases hcf
  | zero s => rw [ceilIndex_mul_of_zero hcu, ceilIndex_mul_of_zero hcu]
  | finite sc m e hm =>
    cases sc with
    | negative =>
      exfalso
      simp only [extendedValue, hcu, extendedUnpacked, unpackedValue_negative] at hcv
      have : (0 : ℚ) < m * 2 ^ e := by positivity
      linarith
    | positive =>
      by_cases hpos : q'.toModel.unpack = .infinity .positive
      · -- the larger factor is the positive infinity: its product saturates
        have htop : ceilIndex (q' * c) = 2 ^ 64 - 1 := by
          unfold ceilIndex
          rw [mul_unpack_of_infinity hpos hcu]
          rfl
        exact htop ▸ ceilIndex_le _
      by_cases hneg : q.toModel.unpack = .infinity .negative
      · -- the smaller factor is the negative infinity: its product rounds up to 0
        have hbot : ceilIndex (q * c) = 0 := by
          unfold ceilIndex
          rw [mul_unpack_of_infinity hneg hcu]
        exact hbot ▸ Nat.zero_le _
      have hqf : q.isFinite = true := isFinite_of_ne (FloatOrder.unpack_ne_nan hq)
        (fun e => hpos (unpack_of_infinity_le e h)) hneg
      have hq'f : q'.isFinite = true := isFinite_of_ne (FloatOrder.unpack_ne_nan hq') hpos
        (fun e => hneg (unpack_of_le_infinity e h))
      exact ceilIndex_mono (mul_mono_left hqf hq'f hc hc₀ h)

/-! ### The nearest rank -/

/-- The rank of the `q`-quantile among `n` values: `q` times `n` in doubles, rounded up,
saturated, and kept in `[1, n]`. -/
def nearestRank (q : Float) (n : ℕ) : ℕ :=
  max 1 (min (saturatingCeil (q * natToFloat n)) n)

theorem nearestRank_mono {q q' : Float} (h : q ≤ q') (n : ℕ) :
    nearestRank q n ≤ nearestRank q' n := by
  unfold nearestRank
  rw [← ceilIndex_eq_saturatingCeil, ← ceilIndex_eq_saturatingCeil]
  have hscale := ceilIndex_mul_mono (natToFloat_isFinite n) (natToFloat_nonneg n) h
  omega

theorem Sample.quantile_nil (q : Float) : Sample.quantile [] q = 0.0 := if_pos rfl

theorem quantile_eq_getD {xs : List Float} (hne : xs ≠ []) (q : Float) :
    Sample.quantile xs q = (Sample.sorted xs).getD (nearestRank q xs.length - 1) 0.0 := by
  have hempty : xs.isEmpty = false := List.isEmpty_eq_false_iff.mpr hne
  unfold Sample.quantile nearestRank
  rw [if_neg (by rw [hempty]; decide)]
  dsimp only
  rw [ceilIndex_eq_saturatingCeil]

/-! ### Order statistics -/

/-- `y` is the `k`-th smallest entry of `xs` in the total order of doubles: fewer than `k`
entries lie below it, and at least `k` at or below it. -/
def IsKthSmallest (xs : List Float) (k : ℕ) (y : Float) : Prop :=
  (xs.filter fun x => totalKey x < totalKey y).length < k ∧
    k ≤ (xs.filter fun x => totalKey x ≤ totalKey y).length

theorem Sample.pairwise_sorted (xs : List Float) :
    (Sample.sorted xs).Pairwise fun a b => totalKey a ≤ totalKey b := by
  have htrans : ∀ a b c : Float, decide (totalKey a ≤ totalKey b) = true →
      decide (totalKey b ≤ totalKey c) = true → decide (totalKey a ≤ totalKey c) = true := by
    intro a b c hab hbc
    simp only [decide_eq_true_eq] at *
    exact UInt64.le_trans hab hbc
  have htotal : ∀ a b : Float,
      (decide (totalKey a ≤ totalKey b) || decide (totalKey b ≤ totalKey a)) = true := by
    intro a b
    simpa using UInt64.le_total _ _
  exact (List.pairwise_mergeSort htrans htotal xs).imp fun h => of_decide_eq_true h

/-- In a list sorted in the total order, the entry after `l₁` is the `l₁.length + 1`-th
smallest: the entries below it are among `l₁`, and `l₁` with it are at or below it. -/
theorem isKthSmallest_of_sorted {l₁ l₂ : List Float} {y : Float}
    (hs : (l₁ ++ y :: l₂).Pairwise fun a b => totalKey a ≤ totalKey b) :
    IsKthSmallest (l₁ ++ y :: l₂) (l₁.length + 1) y := by
  rw [List.pairwise_append, List.pairwise_cons] at hs
  obtain ⟨-, ⟨hafter, -⟩, hbefore⟩ := hs
  have hbelow : ((y :: l₂).filter fun x => totalKey x < totalKey y) = [] := by
    refine List.filter_eq_nil_iff.mpr fun x hx hlt => ?_
    rcases List.mem_cons.mp hx with rfl | hx
    · exact absurd (of_decide_eq_true hlt) (UInt64.lt_irrefl _)
    · exact absurd (of_decide_eq_true hlt) (UInt64.not_lt.mpr (hafter x hx))
  have hupto : (l₁.filter fun x => totalKey x ≤ totalKey y) = l₁ :=
    List.filter_eq_self.mpr fun x hx => decide_eq_true (hbefore x hx y List.mem_cons_self)
  constructor
  · rw [List.filter_append, hbelow, List.append_nil]
    exact Nat.lt_succ_of_le (List.length_filter_le _ _)
  · rw [List.filter_append, hupto, List.length_append, List.filter_cons_of_pos (by simp)]
    simp only [List.length_cons]
    omega

theorem IsKthSmallest.perm {xs ys : List Float} (h : xs.Perm ys) {k : ℕ} {y : Float}
    (hk : IsKthSmallest xs k y) : IsKthSmallest ys k y := by
  unfold IsKthSmallest at *
  rwa [← (h.filter _).length_eq, ← (h.filter _).length_eq]

theorem IsKthSmallest.eq {xs : List Float} {k : ℕ} {y y' : Float} (h : IsKthSmallest xs k y)
    (h' : IsKthSmallest xs k y') : y = y' := by
  have hcount : ∀ {a b : Float}, totalKey a < totalKey b →
      (xs.filter fun x => totalKey x ≤ totalKey a).length ≤
        (xs.filter fun x => totalKey x < totalKey b).length := fun hab =>
    (List.monotone_filter_right xs fun x hx => by
      simp only [decide_eq_true_eq] at hx ⊢
      exact UInt64.lt_of_le_of_lt hx hab).length_le
  by_cases heq : totalKey y = totalKey y'
  · exact totalKey_injective heq
  exfalso
  rcases UInt64.le_total (totalKey y) (totalKey y') with hle | hle
  · exact Nat.lt_irrefl k
      (lt_of_le_of_lt (h.2.trans (hcount (UInt64.lt_iff_le_and_ne.mpr ⟨hle, heq⟩))) h'.1)
  · exact Nat.lt_irrefl k
      (lt_of_le_of_lt (h'.2.trans (hcount (UInt64.lt_iff_le_and_ne.mpr ⟨hle, Ne.symm heq⟩))) h.1)

/-! ### The quantile -/

section Quantile

variable {xs : List Float}

theorem nearestRank_mem (hne : xs ≠ []) (q : Float) :
    1 ≤ nearestRank q xs.length ∧ nearestRank q xs.length ≤ xs.length := by
  have hpos := List.length_pos_of_ne_nil hne
  unfold nearestRank
  omega

theorem quantile_eq_getElem (hne : xs ≠ []) (q : Float) :
    ∃ h : nearestRank q xs.length - 1 < (Sample.sorted xs).length,
      Sample.quantile xs q = (Sample.sorted xs)[nearestRank q xs.length - 1] := by
  have hlen : (Sample.sorted xs).length = xs.length := (List.mergeSort_perm _ _).length_eq
  have hrank := nearestRank_mem hne q
  have hi : nearestRank q xs.length - 1 < (Sample.sorted xs).length := by omega
  exact ⟨hi, by rw [quantile_eq_getD hne, List.getD_eq_getElem _ _ hi]⟩

theorem isKthSmallest_quantile (hne : xs ≠ []) (q : Float) :
    IsKthSmallest xs (nearestRank q xs.length) (Sample.quantile xs q) := by
  obtain ⟨hi, hq⟩ := quantile_eq_getElem hne q
  have hrank := nearestRank_mem hne q
  have hsplit := (List.take_append_drop (nearestRank q xs.length - 1) (Sample.sorted xs)).symm
  rw [List.drop_eq_getElem_cons hi] at hsplit
  have hstat := isKthSmallest_of_sorted (hsplit ▸ Sample.pairwise_sorted xs)
  rw [← hsplit, List.length_take_of_le hi.le, Nat.sub_add_cancel hrank.1] at hstat
  rw [hq]
  exact hstat.perm (List.mergeSort_perm _ _)

theorem quantile_mono {q q' : Float} (h : q ≤ q') :
    totalKey (Sample.quantile xs q) ≤ totalKey (Sample.quantile xs q') := by
  by_cases hnil : xs = []
  · rw [hnil, Sample.quantile_nil, Sample.quantile_nil]
    exact UInt64.le_refl _
  have hne : xs ≠ [] := hnil
  have hrank := nearestRank_mono h xs.length
  rcases Nat.lt_or_eq_of_le (Nat.sub_le_sub_right hrank 1) with hlt | heq
  · -- a strictly later entry of the sorted sample
    obtain ⟨hi, hq⟩ := quantile_eq_getElem hne q
    obtain ⟨hi', hq'⟩ := quantile_eq_getElem hne q'
    rw [hq, hq']
    exact List.pairwise_iff_getElem.mp (Sample.pairwise_sorted xs) _ _ hi hi' hlt
  · rw [quantile_eq_getD hne, quantile_eq_getD hne, heq]
    exact UInt64.le_refl _

end Quantile

/-- The quantile of a nonempty sample is its `k`-th smallest entry in the total order of doubles
and no other double is, for `k` the rank `⌈q · n⌉` saturated and kept in `[1, n]`. So it is an
entry, it lies between the least and the greatest entry, it is the same double for every
reordering of the sample, and it grows with `q`. The quantile of no entries is zero. -/
theorem quantile_is_order_statistic (xs : List Float) (q : Float) :
    (xs = [] → Sample.quantile xs q = 0.0) ∧
      (xs ≠ [] →
        (∀ y, IsKthSmallest xs (nearestRank q xs.length) y ↔ y = Sample.quantile xs q) ∧
        Sample.quantile xs q ∈ xs ∧
        (∀ x ∈ xs, (∀ z ∈ xs, totalKey x ≤ totalKey z) →
          totalKey x ≤ totalKey (Sample.quantile xs q)) ∧
        (∀ x ∈ xs, (∀ z ∈ xs, totalKey z ≤ totalKey x) →
          totalKey (Sample.quantile xs q) ≤ totalKey x)) ∧
      (∀ ys : List Float, ys.Perm xs → Sample.quantile ys q = Sample.quantile xs q) ∧
      ∀ q' : Float, q ≤ q' →
        totalKey (Sample.quantile xs q) ≤ totalKey (Sample.quantile xs q') := by
  refine ⟨fun h => h ▸ Sample.quantile_nil q, fun hne => ?_, fun ys h => Sample.quantile_perm h q,
    fun q' h => quantile_mono h⟩
  have hmem := Sample.quantile_mem hne q
  refine ⟨fun y => ⟨fun hy => hy.eq (isKthSmallest_quantile hne q), ?_⟩, hmem,
    fun x _ hleast => hleast _ hmem, fun x _ hgreatest => hgreatest _ hmem⟩
  rintro rfl
  exact isKthSmallest_quantile hne q

/-- The quantiles at one half and at one of five values listed out of order: an entry that is
the rank's smallest, and no larger at one half than at one. -/
theorem quantile_is_order_statistic_of_five_values :
    let xs : List Float := [5.0, 1.0, 4.0, 2.0, 3.0]
    xs ≠ [] ∧ IsKthSmallest xs (nearestRank 0.5 xs.length) (Sample.quantile xs 0.5) ∧
      Sample.quantile xs 0.5 ∈ xs ∧ (0.5 : Float) ≤ 1.0 ∧
      totalKey (Sample.quantile xs 0.5) ≤ totalKey (Sample.quantile xs 1.0) := by
  intro xs
  have hne : xs ≠ [] := by simp [xs]
  have hhalf : (0.5 : Float) ≤ 1.0 := by decide
  obtain ⟨-, hstat, -, hmono⟩ := quantile_is_order_statistic xs 0.5
  obtain ⟨hkth, hmem, -⟩ := hstat hne
  exact ⟨hne, (hkth _).mpr rfl, hmem, hhalf, hmono 1.0 hhalf⟩

end DoublesLineup
