import DoublesLineup.Proofs.Numeric.Rounded
import DoublesLineup.Proofs.Estimate.Bounded
/-! # Doubles as extended rationals

A double that is a number stands for a rational: its exact value when it is finite, and
`± 2 ^ 1024` for the infinities, the first power of two past every finite double
(`extendedValue`). This reading embeds the order of numbers (`le_iff_extendedValue`). Through
it, an operation on finite doubles is its exact result rounded to nearest and cut into
`[-2 ^ 1024, 2 ^ 1024]` (`IsNearest`): a rounded result of magnitude `2 ^ 1024` or more packs as
an infinity. Rounding and the cut are both monotone, so each operation keeps the order of its
operands' exact values (`IsNearest.le`), and what the order of results needs is an inequality
of rationals. Within range a rounding is off by at most a relative `2 ^ -53` and half the least
subnormal (`IsNearest.abs_sub_le`), which is what bounds on accumulated error are built from.
-/

namespace DoublesLineup

open Float.Model UnpackedFloat FloatOrder Nearest Rounded

/-- The value of an unpacked double in the extended rationals: `± 2 ^ 1024` for an infinity and
the exact value otherwise, so zero for not a number. -/
def extendedUnpacked : UnpackedFloat → ℚ
  | .infinity .positive => 2 ^ 1024
  | .infinity .negative => -2 ^ 1024
  | u => unpackedValue u

/-- The extended value of a double. -/
def extendedValue (x : Float) : ℚ := extendedUnpacked x.toModel.unpack

/-- A rational cut into `[-2 ^ 1024, 2 ^ 1024]`: where a rounded result lands once packed. -/
def saturate (r : ℚ) : ℚ := max (-2 ^ 1024) (min r (2 ^ 1024))

/-- What `unpack` gives beyond the canonical form: no exponent past `971`, the largest that a
biased exponent below all ones leaves. -/
def WithinRange : UnpackedFloat → Prop
  | .finite _ _ e _ => e ≤ 971
  | _ => True

/-- `z` is `q` rounded to the nearest double: a number whose extended value is
`roundNearest q` cut into range. -/
structure IsNearest (z : Float) (q : ℚ) : Prop where
  isNaN : z.isNaN = false
  value : extendedValue z = saturate (roundNearest q)

namespace Extended

/-! ### The cut into range -/

theorem saturate_mono {a b : ℚ} (h : a ≤ b) : saturate a ≤ saturate b := by
  unfold saturate
  gcongr

theorem saturate_of_abs_le {r : ℚ} (h : |r| ≤ 2 ^ 1024) : saturate r = r := by
  obtain ⟨hlo, hhi⟩ := abs_le.mp h
  rw [saturate, min_eq_left hhi, max_eq_right hlo]

@[simp] theorem saturate_zero : saturate 0 = 0 :=
  saturate_of_abs_le (by norm_num)

theorem saturate_of_le {r : ℚ} (h : 2 ^ 1024 ≤ r) : saturate r = 2 ^ 1024 := by
  rw [saturate, min_eq_right h, max_eq_right (by norm_num)]

theorem saturate_of_le_neg {r : ℚ} (h : r ≤ -2 ^ 1024) : saturate r = -2 ^ 1024 := by
  rw [saturate, min_eq_left (h.trans (by norm_num)), max_eq_left h]

theorem saturate_neg (r : ℚ) : saturate (-r) = -saturate r := by
  rcases le_or_gt (2 ^ 1024) r with hhi | hhi
  · rw [saturate_of_le hhi, saturate_of_le_neg (neg_le_neg hhi)]
  rcases le_or_gt r (-2 ^ 1024) with hlo | hlo
  · rw [saturate_of_le_neg hlo, saturate_of_le (le_neg_of_le_neg hlo), neg_neg]
  have habs : |r| ≤ 2 ^ 1024 := abs_le.mpr ⟨hlo.le, hhi.le⟩
  rw [saturate_of_abs_le habs, saturate_of_abs_le (by rwa [abs_neg])]

theorem saturate_nonneg {r : ℚ} (h : 0 ≤ r) : 0 ≤ saturate r := by
  simpa using saturate_mono h

theorem abs_saturate (r : ℚ) : |saturate r| = saturate |r| := by
  rcases le_total 0 r with h | h
  · rw [abs_of_nonneg h, abs_of_nonneg (saturate_nonneg h)]
  · have hs : saturate r ≤ 0 := by simpa using saturate_mono h
    rw [abs_of_nonpos h, abs_of_nonpos hs, saturate_neg]

/-! ### Finite doubles are below `2 ^ 1024` -/

theorem withinRange_ofFields (s : Sign) {E : ℕ} (M : ℕ) (hE : E < 2048) :
    WithinRange (ofFields s E M) := by
  unfold ofFields
  split_ifs <;> simp only [WithinRange] <;> omega

theorem withinRange_unpack (x : Float) : WithinRange x.toModel.unpack := by
  rw [unpack_toModel]
  exact withinRange_ofFields _ _ (Nat.mod_lt _ (by norm_num))

theorem abs_unpackedValue_lt {u : UnpackedFloat} (hc : Canonical u) (hr : WithinRange u) :
    |unpackedValue u| < 2 ^ 1024 := by
  rcases u with s | _ | s | ⟨s, m, e, hm⟩
  · simp [unpackedValue]
  · simp [unpackedValue]
  · simp [unpackedValue]
  · have habs : |unpackedValue (.finite s m e hm)| = m * 2 ^ e := by
      cases s <;> simp [unpackedValue, Sign.apply, abs_mul]
    rw [habs]
    calc (m : ℚ) * 2 ^ e ≤ m * 2 ^ (971 : ℤ) := by
          gcongr
          · norm_num
          · exact hr
      _ < 2 ^ 53 * 2 ^ (971 : ℤ) := by
          gcongr
          exact_mod_cast hc.1
      _ = 2 ^ 1024 := by
          rw [show (971 : ℤ) = ((971 : ℕ) : ℤ) from rfl, zpow_natCast, ← pow_add]

theorem two_pow_le_of_overflow {m : ℕ} {e : ℤ} (hc : 2 ^ 52 ≤ m ∨ e = -1074) (he : 971 < e) :
    (2 : ℚ) ^ 1024 ≤ m * 2 ^ e := by
  have hm : (2 : ℚ) ^ 52 ≤ m := by exact_mod_cast hc.resolve_right (by omega)
  calc (2 : ℚ) ^ 1024 = 2 ^ 52 * 2 ^ (972 : ℤ) := by
        rw [show (972 : ℤ) = ((972 : ℕ) : ℤ) from rfl, zpow_natCast, ← pow_add]
    _ ≤ (m : ℚ) * 2 ^ e := by
        gcongr
        · norm_num
        · omega

@[simp] theorem unpackedValue_positive (m : ℕ) (e : ℤ) (hm : 0 < m) :
    unpackedValue (.finite .positive m e hm) = m * 2 ^ e := by
  simp [unpackedValue, Sign.apply]

@[simp] theorem unpackedValue_negative (m : ℕ) (e : ℤ) (hm : 0 < m) :
    unpackedValue (.finite .negative m e hm) = -(m * 2 ^ e) := by
  simp [unpackedValue, Sign.apply]

theorem extendedUnpacked_of_isFinite {u : UnpackedFloat} (h : u.isFinite = true) :
    extendedUnpacked u = unpackedValue u := by
  rcases u with s | _ | s | ⟨s, m, e, hm⟩
  · cases h
  · cases h
  · rfl
  · rfl

theorem extendedValue_of_isFinite {x : Float} (h : x.isFinite = true) :
    extendedValue x = exactValue x :=
  extendedUnpacked_of_isFinite h

theorem isFinite_of_ne {u : UnpackedFloat} (hn : u ≠ .notANumber)
    (hp : u ≠ .infinity .positive) (hm : u ≠ .infinity .negative) : u.isFinite = true := by
  rcases u with ⟨_ | _⟩ | _ | _ | _ <;> simp_all [UnpackedFloat.isFinite]

theorem abs_extendedUnpacked_lt {u : UnpackedFloat} (hc : Canonical u) (hr : WithinRange u)
    (h : u.isFinite = true) : |extendedUnpacked u| < 2 ^ 1024 := by
  rw [extendedUnpacked_of_isFinite h]
  exact abs_unpackedValue_lt hc hr

/-! ### Rounding, then packing -/

theorem extendedUnpacked_pack {u : UnpackedFloat} {q : ℚ} (h : RoundsTo u q) :
    UnpackedFloat.unpack .binary64 (pack .binary64 u) ≠ .notANumber ∧
      extendedUnpacked (UnpackedFloat.unpack .binary64 (pack .binary64 u)) =
        saturate (roundNearest q) := by
  obtain ⟨hfin, hc, hval⟩ := h
  rw [← hval]
  rcases u with s | _ | s | ⟨s, m, e, hm⟩ <;>
    simp only [UnpackedFloat.isFinite, Bool.false_eq_true] at hfin
  · rw [unpack_pack_zero]
    exact ⟨by simp, by simp [extendedUnpacked, unpackedValue]⟩
  · by_cases he : e ≤ 971
    · rw [unpack_pack_finite hc he]
      exact ⟨by simp, (saturate_of_abs_le (abs_unpackedValue_lt hc he).le).symm⟩
    · rw [unpack_pack_overflow (by omega)]
      have hbig := two_pow_le_of_overflow hc.2.2 (by omega)
      refine ⟨by simp, ?_⟩
      cases s
      · rw [unpackedValue_negative, saturate_of_le_neg (neg_le_neg hbig)]
        rfl
      · rw [unpackedValue_positive, saturate_of_le hbig]
        rfl

theorem isNaN_eq_false_of_unpack_ne {z : Float} (h : z.toModel.unpack ≠ .notANumber) :
    z.isNaN = false := by
  cases hz : z.isNaN
  · rfl
  · exact absurd (UnpackedFloat.isNaN_iff.mp hz) h

theorem isNearest_of_roundsTo {z : Float} {u : UnpackedFloat} {q : ℚ}
    (hz : z.toModel.unpack = UnpackedFloat.unpack .binary64 (pack .binary64 u))
    (h : RoundsTo u q) : IsNearest z q := by
  obtain ⟨hn, hv⟩ := extendedUnpacked_pack h
  rw [← hz] at hn hv
  exact ⟨isNaN_eq_false_of_unpack_ne hn, hv⟩

/-! ### The order of numbers -/

section Order

variable {u v : UnpackedFloat} (hu : Canonical u) (hv : Canonical v) (hru : WithinRange u)
  (hrv : WithinRange v) (hun : u ≠ .notANumber) (hvn : v ≠ .notANumber)
include hu hv hru hrv hun hvn

theorem extendedUnpacked_lt_of_rank (h : lexCompare (rank u) (rank v) = .lt) :
    extendedUnpacked u < extendedUnpacked v := by
  have hup : u ≠ .infinity .positive := by
    rintro rfl
    rcases v with ⟨_ | _⟩ | _ | _ | ⟨_ | _, _, _, _⟩ <;> simp [rank, lexCompare_eq_lt_iff] at h
  have hvm : v ≠ .infinity .negative := by
    rintro rfl
    rcases u with ⟨_ | _⟩ | _ | _ | ⟨_ | _, _, _, _⟩ <;> simp [rank, lexCompare_eq_lt_iff] at h
  by_cases hvp : v = .infinity .positive
  · subst hvp
    by_cases hum : u = .infinity .negative
    · subst hum
      norm_num [extendedUnpacked]
    · exact (abs_lt.mp (abs_extendedUnpacked_lt hu hru (isFinite_of_ne hun hup hum))).2
  by_cases hum : u = .infinity .negative
  · subst hum
    exact (abs_lt.mp (abs_extendedUnpacked_lt hv hrv (isFinite_of_ne hvn hvp hvm))).1
  have hu' := isFinite_of_ne hun hup hum
  have hv' := isFinite_of_ne hvn hvp hvm
  rw [extendedUnpacked_of_isFinite hu', extendedUnpacked_of_isFinite hv']
  exact unpackedValue_lt_of_rank hu hv hu' hv' h

theorem extendedUnpacked_eq_of_rank (h : rank u = rank v) :
    extendedUnpacked u = extendedUnpacked v := by
  rcases eq_of_rank_eq hun hvn h with rfl | ⟨⟨s, rfl⟩, ⟨t, rfl⟩⟩
  · rfl
  · rfl

end Order

section FloatOrder

variable {x y : Float} (hx : x.isNaN = false) (hy : y.isNaN = false)
include hx hy

theorem extendedValue_lt_of_rank
    (h : lexCompare (rank x.toModel.unpack) (rank y.toModel.unpack) = .lt) :
    extendedValue x < extendedValue y :=
  extendedUnpacked_lt_of_rank (canonical_unpack x) (canonical_unpack y) (withinRange_unpack x)
    (withinRange_unpack y) (unpack_ne_nan hx) (unpack_ne_nan hy) h

theorem extendedValue_eq_of_rank (h : rank x.toModel.unpack = rank y.toModel.unpack) :
    extendedValue x = extendedValue y :=
  extendedUnpacked_eq_of_rank (canonical_unpack x) (canonical_unpack y) (withinRange_unpack x)
    (withinRange_unpack y) (unpack_ne_nan hx) (unpack_ne_nan hy) h

/-- On doubles that are numbers, the order is that of their extended values. -/
theorem le_iff_extendedValue : x ≤ y ↔ extendedValue x ≤ extendedValue y := by
  rw [le_iff_rank hx hy]
  rcases hxy : lexCompare (rank x.toModel.unpack) (rank y.toModel.unpack)
  · exact iff_of_true nofun (extendedValue_lt_of_rank hx hy hxy).le
  · exact iff_of_true nofun (extendedValue_eq_of_rank hx hy (lexCompare_eq_eq_iff.mp hxy)).le
  · have hyx : lexCompare (rank y.toModel.unpack) (rank x.toModel.unpack) = .lt := by
      rw [lexCompare_swap, hxy]
      rfl
    exact iff_of_false (fun h => h rfl) (not_le.mpr (extendedValue_lt_of_rank hy hx hyx))

theorem lt_iff_extendedValue : x < y ↔ extendedValue x < extendedValue y := by
  rw [lt_iff_rank hx hy]
  rcases hxy : lexCompare (rank x.toModel.unpack) (rank y.toModel.unpack)
  · exact iff_of_true rfl (extendedValue_lt_of_rank hx hy hxy)
  · exact iff_of_false nofun
      (not_lt.mpr (extendedValue_eq_of_rank hx hy (lexCompare_eq_eq_iff.mp hxy)).ge)
  · have hyx : lexCompare (rank y.toModel.unpack) (rank x.toModel.unpack) = .lt := by
      rw [lexCompare_swap, hxy]
      rfl
    exact iff_of_false nofun (not_lt.mpr (extendedValue_lt_of_rank hy hx hyx).le)

end FloatOrder

theorem isFinite_of_abs_extendedValue_lt {z : Float} (hz : z.isNaN = false)
    (h : |extendedValue z| < 2 ^ 1024) : z.isFinite = true := by
  have hn := unpack_ne_nan hz
  change z.toModel.unpack.isFinite = true
  unfold extendedValue at h
  generalize z.toModel.unpack = u at hn h ⊢
  rcases u with ⟨_ | _⟩ | _ | _ | _
  · norm_num [extendedUnpacked] at h
  · norm_num [extendedUnpacked] at h
  · exact absurd rfl hn
  · rfl
  · rfl

theorem abs_extendedValue_lt {z : Float} (hz : z.isFinite = true) :
    |extendedValue z| < 2 ^ 1024 :=
  abs_extendedUnpacked_lt (canonical_unpack z) (withinRange_unpack z) hz

section Finite

variable {x y : Float} (hx : x.isFinite = true) (hy : y.isFinite = true)
include hx hy

theorem le_iff_exactValue : x ≤ y ↔ exactValue x ≤ exactValue y := by
  rw [le_iff_extendedValue (isNaN_eq_false_of_isFinite hx) (isNaN_eq_false_of_isFinite hy),
    extendedValue_of_isFinite hx, extendedValue_of_isFinite hy]

theorem lt_iff_exactValue : x < y ↔ exactValue x < exactValue y := by
  rw [lt_iff_extendedValue (isNaN_eq_false_of_isFinite hx) (isNaN_eq_false_of_isFinite hy),
    extendedValue_of_isFinite hx, extendedValue_of_isFinite hy]

end Finite

/-! ### Absolute values, halvings, least numbers and clamps -/

theorem extendedUnpacked_abs {u : UnpackedFloat} (hc : Canonical u) (hr : WithinRange u)
    (hn : u ≠ .notANumber) :
    UnpackedFloat.unpack .binary64 (pack .binary64 u.abs) ≠ .notANumber ∧
      extendedUnpacked (UnpackedFloat.unpack .binary64 (pack .binary64 u.abs)) =
        |extendedUnpacked u| := by
  rcases u with s | _ | s | ⟨s, m, e, hm⟩
  · simp only [UnpackedFloat.abs, unpack_pack_infinity]
    refine ⟨by simp, ?_⟩
    cases s <;> norm_num [extendedUnpacked]
  · exact absurd rfl hn
  · simp only [UnpackedFloat.abs, unpack_pack_zero]
    exact ⟨by simp, by simp [extendedUnpacked, unpackedValue]⟩
  · simp only [UnpackedFloat.abs]
    rw [unpack_pack_finite (s := .positive) hc hr]
    refine ⟨by simp, ?_⟩
    cases s <;> simp [extendedUnpacked, abs_mul]

theorem extendedValue_abs {x : Float} (hx : x.isNaN = false) :
    x.abs.isNaN = false ∧ extendedValue x.abs = |extendedValue x| := by
  obtain ⟨hn, hv⟩ :=
    extendedUnpacked_abs (canonical_unpack x) (withinRange_unpack x) (unpack_ne_nan hx)
  exact ⟨isNaN_eq_false_of_unpack_ne hn, hv⟩

theorem roundNearest_two_mul {u : UnpackedFloat} (hu : u.isFinite = true) (hc : Canonical u) :
    roundNearest (2 * unpackedValue u) = 2 * unpackedValue u := by
  rcases u with s | _ | s | ⟨s, m, e, hm⟩ <;>
    simp only [UnpackedFloat.isFinite, Bool.false_eq_true] at hu
  · simp [unpackedValue]
  obtain ⟨h53, he, h52⟩ := hc
  have hdouble : roundNearest (2 * (m * 2 ^ e)) = 2 * (m * 2 ^ e) := by
    rcases le_or_gt (2 ^ 52) m with hnormal | hsub
    · have hshift : (2 : ℚ) * (m * 2 ^ e) = m * 2 ^ (e + 1) := by
        rw [zpow_add_one₀ two_ne_zero]
        ring
      rw [hshift]
      exact roundNearest_dyadic h53 (by omega) (.inl hnormal)
    · have hwide : (2 : ℚ) * (m * 2 ^ e) = ((2 * m : ℕ) : ℚ) * 2 ^ e := by
        push_cast
        ring
      rw [hwide]
      exact roundNearest_dyadic (by omega) he (.inr (h52.resolve_left (by omega)))
  cases s
  · rw [unpackedValue_negative, mul_neg, roundNearest_neg, hdouble]
  · rw [unpackedValue_positive, hdouble]

theorem extendedUnpacked_div_half {u : UnpackedFloat} (hc : Canonical u) (hr : WithinRange u)
    (hn : u ≠ .notANumber) :
    UnpackedFloat.unpack .binary64
        (pack .binary64 (UnpackedFloat.div .binary64 u (0.5 : Float).toModel.unpack)) ≠
        .notANumber ∧
      extendedUnpacked (UnpackedFloat.unpack .binary64
        (pack .binary64 (UnpackedFloat.div .binary64 u (0.5 : Float).toModel.unpack))) =
        saturate (2 * extendedUnpacked u) := by
  by_cases hu : u.isFinite = true
  · obtain ⟨hn', hv⟩ := extendedUnpacked_pack (div_half_spec hu)
    have htwice : unpackedValue u / (1 / 2) = 2 * unpackedValue u := by ring
    refine ⟨hn', ?_⟩
    rw [hv, extendedUnpacked_of_isFinite hu, htwice, roundNearest_two_mul hu hc]
  rw [half_unpack]
  rcases u with ⟨_ | _⟩ | _ | _ | _
  · simp only [UnpackedFloat.div, Sign.div_positive, unpack_pack_infinity]
    refine ⟨by simp, ?_⟩
    rw [saturate_of_le_neg (by norm_num [extendedUnpacked])]
    rfl
  · simp only [UnpackedFloat.div, Sign.div_positive, unpack_pack_infinity]
    refine ⟨by simp, ?_⟩
    rw [saturate_of_le (by norm_num [extendedUnpacked])]
    rfl
  · exact absurd rfl hn
  · exact absurd rfl hu
  · exact absurd rfl hu

theorem extendedValue_div_half {x : Float} (hx : x.isNaN = false) :
    (x / 0.5).isNaN = false ∧ extendedValue (x / 0.5) = saturate (2 * extendedValue x) := by
  obtain ⟨hn, hv⟩ :=
    extendedUnpacked_div_half (canonical_unpack x) (withinRange_unpack x) (unpack_ne_nan hx)
  exact ⟨isNaN_eq_false_of_unpack_ne hn, hv⟩

theorem extendedValue_minNum {x y : Float} (hx : x.isNaN = false) (hy : y.isNaN = false) :
    (minNum x y).isNaN = false ∧
      extendedValue (minNum x y) = min (extendedValue x) (extendedValue y) := by
  have hxy := lt_iff_extendedValue hx hy
  have hyx := lt_iff_extendedValue hy hx
  simp only [minNum, hx, hy, Bool.false_eq_true, ↓reduceIte]
  by_cases h₁ : y < x
  · rw [if_pos h₁]
    exact ⟨hy, (min_eq_right (hyx.mp h₁).le).symm⟩
  rw [if_neg h₁]
  by_cases h₂ : x < y
  · rw [if_pos h₂]
    exact ⟨hx, (min_eq_left (hxy.mp h₂).le).symm⟩
  rw [if_neg h₂]
  have heq : extendedValue x = extendedValue y :=
    le_antisymm (not_lt.mp (mt hyx.mpr h₁)) (not_lt.mp (mt hxy.mpr h₂))
  split_ifs
  · exact ⟨hx, by rw [heq, min_self]⟩
  · exact ⟨hy, by rw [heq, min_self]⟩

theorem extendedValue_maxNum {x y : Float} (hx : x.isNaN = false) (hy : y.isNaN = false) :
    (maxNum x y).isNaN = false ∧
      extendedValue (maxNum x y) = max (extendedValue x) (extendedValue y) := by
  have hxy := lt_iff_extendedValue hx hy
  have hyx := lt_iff_extendedValue hy hx
  simp only [maxNum, hx, hy, Bool.false_eq_true, ↓reduceIte]
  by_cases h₁ : y > x
  · rw [if_pos h₁]
    exact ⟨hy, (max_eq_right (hxy.mp h₁).le).symm⟩
  rw [if_neg h₁]
  by_cases h₂ : x > y
  · rw [if_pos h₂]
    exact ⟨hx, (max_eq_left (hyx.mp h₂).le).symm⟩
  rw [if_neg h₂]
  have heq : extendedValue x = extendedValue y :=
    le_antisymm (not_lt.mp (mt hyx.mpr h₂)) (not_lt.mp (mt hxy.mpr h₁))
  split_ifs
  · exact ⟨hy, by rw [heq, max_self]⟩
  · exact ⟨hx, by rw [heq, max_self]⟩

theorem maxNum_eq_or (x y : Float) : maxNum x y = x ∨ maxNum x y = y := by
  unfold maxNum
  split_ifs <;> simp

theorem extendedValue_clampTo {x lo hi : Float} (hx : x.isNaN = false) (h : lo ≤ hi) :
    extendedValue (clampTo x lo hi) =
      max (extendedValue lo) (min (extendedValue x) (extendedValue hi)) := by
  obtain ⟨hlo, hhi⟩ := isNaN_eq_false_of_le h
  have hle := (le_iff_extendedValue hlo hhi).mp h
  unfold clampTo
  split_ifs with below above
  · have hb := (lt_iff_extendedValue hx hlo).mp below
    rw [min_eq_left (hb.le.trans hle), max_eq_left hb.le]
  · have ha := (lt_iff_extendedValue hhi hx).mp above
    rw [min_eq_right ha.le, max_eq_right hle]
  · have hb := not_lt.mp (mt (lt_iff_extendedValue hx hlo).mpr below)
    have ha := not_lt.mp (mt (lt_iff_extendedValue hhi hx).mpr above)
    rw [min_eq_left ha, max_eq_right hb]

theorem roundNearest_exactValue {x : Float} (hx : x.isFinite = true) :
    roundNearest (exactValue x) = exactValue x :=
  (roundsTo_self hx (canonical_unpack x)).value.symm

end Extended

/-! ### Operations read as rounded exact results -/

namespace IsNearest

open Extended

theorem self {x : Float} (hx : x.isFinite = true) : IsNearest x (exactValue x) := by
  refine ⟨isNaN_eq_false_of_isFinite hx, ?_⟩
  have hround := (roundsTo_self hx (canonical_unpack x)).value
  rw [extendedValue_of_isFinite hx, exactValue, ← hround,
    saturate_of_abs_le (abs_unpackedValue_lt (canonical_unpack x) (withinRange_unpack x)).le]

theorem le {z w : Float} {q r : ℚ} (hz : IsNearest z q) (hw : IsNearest w r) (h : q ≤ r) :
    z ≤ w := by
  rw [le_iff_extendedValue hz.isNaN hw.isNaN, hz.value, hw.value]
  exact saturate_mono (roundNearest_mono h)

theorem isFinite {z lo hi : Float} {q : ℚ} (hz : IsNearest z q) (hlo : lo.isFinite = true)
    (hhi : hi.isFinite = true) (h₁ : exactValue lo ≤ q) (h₂ : q ≤ exactValue hi) :
    z.isFinite = true :=
  isFinite_of_le_of_le ((self hlo).le hz h₁) (hz.le (self hhi) h₂) hlo hhi

/-- A rounding of a number of magnitude at most `2 ^ 1023` stays in range: it is finite, and
its value is the rounded number. -/
theorem exactValue_eq {z : Float} {q : ℚ} (hz : IsNearest z q) (hq : |q| ≤ 2 ^ 1023) :
    z.isFinite = true ∧ exactValue z = roundNearest q := by
  -- `2 ^ 1023` is a double, so rounding keeps `|q|` at or below it
  have htop :
      roundNearest (((2 ^ 52 : ℕ) : ℚ) * 2 ^ (971 : ℤ)) = ((2 ^ 52 : ℕ) : ℚ) * 2 ^ (971 : ℤ) :=
    roundNearest_dyadic (by norm_num) (by norm_num) (.inl le_rfl)
  have hval : ((2 ^ 52 : ℕ) : ℚ) * 2 ^ (971 : ℤ) = 2 ^ 1023 := by
    rw [Nat.cast_pow, Nat.cast_ofNat, ← zpow_natCast, ← zpow_add₀ two_ne_zero,
      show ((52 : ℕ) : ℤ) + 971 = ((1023 : ℕ) : ℤ) by norm_num, zpow_natCast]
  rw [hval] at htop
  have hr : |roundNearest q| ≤ 2 ^ 1023 := by
    rw [← roundNearest_abs, ← htop]
    exact roundNearest_mono hq
  have hsmall : (2 : ℚ) ^ 1023 < 2 ^ 1024 := pow_lt_pow_right₀ (by norm_num) (by norm_num)
  have hsat : saturate (roundNearest q) = roundNearest q := saturate_of_abs_le (hr.trans hsmall.le)
  have hfin : z.isFinite = true :=
    isFinite_of_abs_extendedValue_lt hz.isNaN (by rw [hz.value, hsat]; exact hr.trans_lt hsmall)
  exact ⟨hfin, by rw [← extendedValue_of_isFinite hfin, hz.value, hsat]⟩

theorem abs_sub_le {z : Float} {q : ℚ} (hz : IsNearest z q) (hq : |q| ≤ 2 ^ 1023) :
    |exactValue z - q| ≤ |q| * unitRoundoff + underflowError := by
  rw [(hz.exactValue_eq hq).2]
  exact abs_roundNearest_sub_le q

theorem unit {z : Float} {q : ℚ} (hz : IsNearest z q) (h₀ : 0 ≤ q) (h₁ : q ≤ 1) :
    z.isFinite = true ∧ 0 ≤ exactValue z ∧ exactValue z ≤ 1 ∧
      |exactValue z - q| ≤ unitRoundoff + underflowError := by
  have hq : |q| ≤ 2 ^ 1023 := by
    rw [abs_of_nonneg h₀]
    exact h₁.trans (one_le_pow₀ (by norm_num))
  obtain ⟨hfin, hval⟩ := hz.exactValue_eq hq
  have herr := hz.abs_sub_le hq
  rw [abs_of_nonneg h₀] at herr
  have hu := unitRoundoff_pos
  refine ⟨hfin, ?_, ?_, ?_⟩
  · rw [hval]
    exact roundNearest_nonneg h₀
  · rw [hval, ← roundNearest_one]
    exact roundNearest_mono h₁
  · calc |exactValue z - q| ≤ q * unitRoundoff + underflowError := herr
      _ ≤ unitRoundoff + underflowError := by gcongr; exact mul_le_of_le_one_left hu.le h₁

section Operations

variable {x y : Float} (hx : x.isFinite = true) (hy : y.isFinite = true)
include hx hy

theorem add : IsNearest (x + y) (exactValue x + exactValue y) :=
  isNearest_of_roundsTo rfl (add_spec hx hy (canonical_unpack x) (canonical_unpack y))

theorem sub : IsNearest (x - y) (exactValue x - exactValue y) :=
  isNearest_of_roundsTo rfl (sub_spec hx hy (canonical_unpack x) (canonical_unpack y))

theorem mul : IsNearest (x * y) (exactValue x * exactValue y) :=
  isNearest_of_roundsTo rfl (mul_spec hx hy (canonical_unpack x) (canonical_unpack y))

theorem div (hy₀ : exactValue y ≠ 0) : IsNearest (x / y) (exactValue x / exactValue y) :=
  isNearest_of_roundsTo rfl (div_spec hx hy hy₀)

end Operations

end IsNearest

namespace Extended

/-! ### Monotone operations -/

@[simp] theorem exactValue_one : exactValue 1.0 = 1 := by
  rw [exactValue, show (1.0 : Float).toModel.unpack = .finite .positive (2 ^ 52) (-52)
    (by norm_num) from rfl, unpackedValue_positive]
  norm_num

@[simp] theorem exactValue_half : exactValue 0.5 = 1 / 2 := by
  rw [exactValue, half_unpack, unpackedValue_positive]
  norm_num

@[simp] theorem extendedValue_zero : extendedValue 0.0 = 0 :=
  (extendedValue_of_isFinite rfl).trans exactValue_zero

@[simp] theorem extendedValue_one : extendedValue 1.0 = 1 :=
  (extendedValue_of_isFinite rfl).trans exactValue_one

@[simp] theorem exactValue_negZero : exactValue (-0.0) = 0 := rfl

/-! ### Negation -/

theorem isNearest_natToFloat (n : ℕ) : IsNearest (natToFloat n) (n % 2 ^ 64 : ℕ) := by
  have hround := normalize_spec ((n.toUInt64.toNat : ℕ) : ℤ) 0 .positive
  rw [zpow_zero, mul_one, Int.cast_natCast] at hround
  have hnear := isNearest_of_roundsTo (z := natToFloat n) rfl hround
  simpa using hnear

theorem natToFloat_nonneg (n : ℕ) : 0.0 ≤ natToFloat n := by
  have hnear := isNearest_natToFloat n
  have hval : extendedValue 0.0 ≤ extendedValue (natToFloat n) :=
    extendedValue_zero.trans_le
      ((saturate_nonneg (roundNearest_nonneg (by positivity))).trans_eq hnear.value.symm)
  exact (le_iff_extendedValue rfl hnear.isNaN).mpr hval

theorem natToFloat_isFinite (n : ℕ) : (natToFloat n).isFinite = true := by
  have hnear := isNearest_natToFloat n
  have htop :
      roundNearest (((2 ^ 52 : ℕ) : ℚ) * 2 ^ (12 : ℤ)) = ((2 ^ 52 : ℕ) : ℚ) * 2 ^ (12 : ℤ) :=
    roundNearest_dyadic (by norm_num) (by norm_num) (.inl le_rfl)
  have hval : ((2 ^ 52 : ℕ) : ℚ) * 2 ^ (12 : ℤ) = 2 ^ 64 := by norm_num
  have hle : ((n % 2 ^ 64 : ℕ) : ℚ) ≤ ((2 ^ 52 : ℕ) : ℚ) * 2 ^ (12 : ℤ) := by
    rw [hval]
    exact_mod_cast (Nat.mod_lt _ (by norm_num)).le
  have hr := roundNearest_mono hle
  rw [htop, hval] at hr
  have hr₀ := roundNearest_nonneg (q := ((n % 2 ^ 64 : ℕ) : ℚ)) (by positivity)
  have hsmall : (2 : ℚ) ^ 64 < 2 ^ 1024 := pow_lt_pow_right₀ (by norm_num) (by norm_num)
  apply isFinite_of_abs_extendedValue_lt hnear.isNaN
  rw [hnear.value, saturate_of_abs_le (by rw [abs_of_nonneg hr₀]; exact hr.trans hsmall.le),
    abs_of_nonneg hr₀]
  exact hr.trans_lt hsmall

theorem exactValue_nonneg {x : Float} (hx : x.isFinite = true) (h : 0.0 ≤ x) :
    0 ≤ exactValue x := by
  simpa using exactValue_le_of_le h rfl hx

theorem exactValue_le_one {x : Float} (hx : x.isFinite = true) (h : x ≤ 1.0) :
    exactValue x ≤ 1 := by
  simpa using exactValue_le_of_le h hx rfl

theorem mul_mem_of_unit {x y : Float} (hx : x.isFinite = true) (hx₀ : 0.0 ≤ x) (hy₀ : 0.0 ≤ y)
    (hy₁ : y ≤ 1.0) : (x * y).isFinite = true ∧ 0.0 ≤ x * y ∧ x * y ≤ x := by
  have hy : y.isFinite = true := isFinite_of_le_of_le hy₀ hy₁ rfl rfl
  have hprod := IsNearest.mul hx hy
  have hX := exactValue_nonneg hx hx₀
  have hq₀ : exactValue 0.0 ≤ exactValue x * exactValue y :=
    by simpa using mul_nonneg hX (exactValue_nonneg hy hy₀)
  have hq₁ : exactValue x * exactValue y ≤ exactValue x :=
    mul_le_of_le_one_right hX (exactValue_le_one hy hy₁)
  exact ⟨hprod.isFinite rfl hx hq₀ hq₁, (IsNearest.self rfl).le hprod hq₀,
    hprod.le (IsNearest.self hx) hq₁⟩

section Factors

variable {x x' y y' : Float} (hx : x.isFinite = true) (hx' : x'.isFinite = true)
  (hy : y.isFinite = true) (hy' : y'.isFinite = true)

include hx hy hy' in
theorem mul_mono_right (hx₀ : 0.0 ≤ x) (h : y ≤ y') : x * y ≤ x * y' :=
  (IsNearest.mul hx hy).le (IsNearest.mul hx hy')
    (mul_le_mul_of_nonneg_left (exactValue_le_of_le h hy hy') (exactValue_nonneg hx hx₀))

include hx hx' hy in
theorem mul_mono_left (hy₀ : 0.0 ≤ y) (h : x ≤ x') : x * y ≤ x' * y :=
  (IsNearest.mul hx hy).le (IsNearest.mul hx' hy)
    (mul_le_mul_of_nonneg_right (exactValue_le_of_le h hx hx') (exactValue_nonneg hy hy₀))

include hx hy hy' in
theorem add_mono_right (h : y ≤ y') : x + y ≤ x + y' := by
  have hle := exactValue_le_of_le h hy hy'
  exact (IsNearest.add hx hy).le (IsNearest.add hx hy') (by linarith)

include hx hy hy' in
theorem sub_anti_right (h : y ≤ y') : x - y' ≤ x - y := by
  have hle := exactValue_le_of_le h hy hy'
  exact (IsNearest.sub hx hy').le (IsNearest.sub hx hy) (by linarith)

end Factors

theorem minNum_mono_left {x x' c : Float} (hx : x.isNaN = false) (hc : c.isNaN = false)
    (h : x ≤ x') : minNum x c ≤ minNum x' c := by
  have hx' := (isNaN_eq_false_of_le h).2
  obtain ⟨hn, hv⟩ := extendedValue_minNum hx hc
  obtain ⟨hn', hv'⟩ := extendedValue_minNum hx' hc
  rw [le_iff_extendedValue hn hn', hv, hv']
  exact min_le_min_right _ ((le_iff_extendedValue hx hx').mp h)

theorem div_half_mono {x x' : Float} (hx : x.isNaN = false) (h : x ≤ x') :
    x / 0.5 ≤ x' / 0.5 := by
  have hx' := (isNaN_eq_false_of_le h).2
  obtain ⟨hn, hv⟩ := extendedValue_div_half hx
  obtain ⟨hn', hv'⟩ := extendedValue_div_half hx'
  rw [le_iff_extendedValue hn hn', hv, hv']
  exact saturate_mono (by linarith [(le_iff_extendedValue hx hx').mp h])

theorem isNearest_abs_sub {x y : Float} (hx : x.isFinite = true) (hy : y.isFinite = true) :
    IsNearest (x - y).abs |exactValue x - exactValue y| := by
  have hsub := IsNearest.sub hx hy
  obtain ⟨hn, hv⟩ := extendedValue_abs hsub.isNaN
  exact ⟨hn, by rw [hv, hsub.value, abs_saturate, roundNearest_abs]⟩

/-! ### Not a number -/

theorem isNaN_abs {x : Float} (hx : x.isNaN = true) : x.abs.isNaN = true := by
  have hu : x.toModel.unpack = .notANumber := UnpackedFloat.isNaN_iff.mp hx
  show (UnpackedFloat.unpack .binary64 (pack .binary64 x.toModel.unpack.abs)).isNaN = true
  rw [hu]
  rfl

theorem isNaN_div {x : Float} (hx : x.isNaN = true) (y : Float) : (x / y).isNaN = true := by
  have hu : x.toModel.unpack = .notANumber := UnpackedFloat.isNaN_iff.mp hx
  show (UnpackedFloat.unpack .binary64
    (pack .binary64 (UnpackedFloat.div .binary64 x.toModel.unpack y.toModel.unpack))).isNaN = true
  rw [hu]
  have hdiv : UnpackedFloat.div .binary64 .notANumber y.toModel.unpack = .notANumber := by
    cases y.toModel.unpack <;> simp [UnpackedFloat.div]
  rw [hdiv]
  rfl

end Extended

end DoublesLineup
