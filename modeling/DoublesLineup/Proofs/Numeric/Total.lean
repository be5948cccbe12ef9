import Mathlib.Tactic.SplitIfs
import DoublesLineup.Numeric.Ieee
/-! # The total order of doubles

`totalKey` reads the bits of a double so that the order of keys is the total order of doubles.
Its two halves do not overlap: a double with the sign bit clear keeps its bits above `2 ^ 63`, and
one with the sign bit set is reflected below. So the key tells every two bit patterns apart, and
two doubles compare equal in the total order exactly when they have the same bits.
-/

namespace DoublesLineup

theorem Float.toBits_injective : Function.Injective Float.toBits := by
  rintro ⟨⟨a, ha⟩⟩ ⟨⟨b, hb⟩⟩ h
  change a = b at h
  subst h
  rfl

theorem totalKey_injective : Function.Injective totalKey := by
  intro x y h
  apply Float.toBits_injective
  unfold totalKey at h
  dsimp only at h
  have hx := UInt64.toNat_lt x.toBits
  have hy := UInt64.toNat_lt y.toBits
  rw [← UInt64.toNat_inj] at h ⊢
  split_ifs at h with h₁ h₂ h₂ <;>
    simp only [UInt64.toNat_add, UInt64.toNat_sub, UInt64.lt_iff_toNat_lt, UInt64.reduceToNat]
      at h h₁ h₂ <;>
    omega

theorem totalCompare_eq_eq_iff {x y : Float} : totalCompare x y = .eq ↔ x.toBits = y.toBits := by
  unfold totalCompare
  rw [Std.LawfulEqCmp.compare_eq_iff_eq]
  exact ⟨fun h => congrArg Float.toBits (totalKey_injective h),
    fun h => congrArg totalKey (Float.toBits_injective h)⟩

theorem totalCompare_swap (x y : Float) : totalCompare y x = (totalCompare x y).swap :=
  show compare (totalKey y) (totalKey x) = (compare (totalKey x) (totalKey y)).swap from
    Std.OrientedCmp.eq_swap

end DoublesLineup
