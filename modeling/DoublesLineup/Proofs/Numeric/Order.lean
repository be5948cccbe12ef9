import Mathlib
import DoublesLineup.Estimate.Blend
/-! # The order of doubles

A comparison of two doubles unpacks both and compares them as IEEE 754 says: a not-a-number is
comparable to nothing, the two zeros are equal, and otherwise the sign decides, then the
exponent, then the mantissa, a negative sign reversing the last two. From that definition
this module proves the transitivity laws that the clamps rely on. Bounds that pass their check
are in order, so a clamp into them never faults.
-/

namespace DoublesLineup.FloatOrder

open Float.Model UnpackedFloat

theorem sign_compare_self (s : Sign) : compare s s = .eq := by
  cases s <;> rfl

theorem sign_compare_neg_pos : compare Sign.negative Sign.positive = .lt := rfl

theorem sign_compare_pos_neg : compare Sign.positive Sign.negative = .gt := rfl

theorem lex_lt_of_lt_of_le {e₁ e₂ e₃ : Int} {m₁ m₂ m₃ : Nat}
    (h₁ : (compare e₁ e₂).then (compare m₁ m₂) = .lt)
    (h₂ : ((compare e₂ e₃).then (compare m₂ m₃)).isLE) :
    (compare e₁ e₃).then (compare m₁ m₃) = .lt := by
  simp only [Ordering.then_eq_lt, Ordering.isLE_iff_eq_lt_or_eq_eq, Ordering.then_eq_eq,
    Int.compare_eq_lt, Nat.compare_eq_lt, Int.compare_eq_eq, Nat.compare_eq_eq] at h₁ h₂ ⊢
  omega

theorem lex_gt_of_gt_of_ge {e₁ e₂ e₃ : Int} {m₁ m₂ m₃ : Nat}
    (h₁ : (compare e₁ e₂).then (compare m₁ m₂) = .gt)
    (h₂ : ((compare e₂ e₃).then (compare m₂ m₃)).isGE) :
    (compare e₁ e₃).then (compare m₁ m₃) = .gt := by
  simp only [Ordering.then_eq_gt, Ordering.isGE_iff_eq_gt_or_eq_eq, Ordering.then_eq_eq,
    Int.compare_eq_gt, Nat.compare_eq_gt, Int.compare_eq_eq, Nat.compare_eq_eq] at h₁ h₂ ⊢
  omega

theorem unpacked_lt_of_lt_of_le {a b c : UnpackedFloat} (hab : a.lt b) (hbc : b.le c) :
    a.lt c := by
  rcases a with ⟨_ | _⟩ | _ | ⟨_ | _⟩ | ⟨_ | _, m₁, e₁, _⟩ <;>
  rcases b with ⟨_ | _⟩ | _ | ⟨_ | _⟩ | ⟨_ | _, m₂, e₂, _⟩ <;>
  simp [UnpackedFloat.lt, UnpackedFloat.compare, sign_compare_self, sign_compare_neg_pos,
    sign_compare_pos_neg] at hab <;>
  rcases c with ⟨_ | _⟩ | _ | ⟨_ | _⟩ | ⟨_ | _, m₃, e₃, _⟩ <;>
  simp [UnpackedFloat.lt, UnpackedFloat.le, UnpackedFloat.compare, sign_compare_self,
    sign_compare_neg_pos, sign_compare_pos_neg] at hbc ⊢
  · exact lex_gt_of_gt_of_ge hab hbc
  · exact lex_lt_of_lt_of_le hab hbc

theorem lt_iff {a b : Float} : a < b ↔ a.toModel.unpack.lt b.toModel.unpack := by
  show a.lt b = true ↔ _
  simp only [Float.lt, decide_eq_true_eq]
  rfl

theorem le_iff {a b : Float} : a ≤ b ↔ a.toModel.unpack.le b.toModel.unpack := by
  show a.le b = true ↔ _
  simp only [Float.le, decide_eq_true_eq]
  rfl

theorem lt_of_lt_of_le {a b c : Float} (hab : a < b) (hbc : b ≤ c) : a < c :=
  lt_iff.mpr (unpacked_lt_of_lt_of_le (lt_iff.mp hab) (le_iff.mp hbc))

theorem le_of_lt {a b : Float} (h : a < b) : a ≤ b := by
  rw [lt_iff] at h
  rw [le_iff]
  simp only [UnpackedFloat.lt, UnpackedFloat.le, beq_iff_eq] at h ⊢
  rw [h]
  rfl

end DoublesLineup.FloatOrder

namespace DoublesLineup.ProbabilityBounds

theorem lower_le_upper {b : ProbabilityBounds} (h : b.valid = true) : b.lower ≤ b.upper := by
  simp only [valid, Bool.and_eq_true, decide_eq_true_eq] at h
  obtain ⟨⟨⟨⟨-, below⟩, above⟩, -⟩, -⟩ := h
  exact FloatOrder.le_of_lt (FloatOrder.lt_of_lt_of_le below above)

theorem clampChecked_eq {x lower upper : Float} (h : lower ≤ upper) :
    clampChecked x lower upper = .ok (clampTo x lower upper) := by
  simp [clampChecked, clampTo, h]

theorem clamp_eq {b : ProbabilityBounds} (h : b.lower ≤ b.upper) (p : Float) :
    b.clamp p = .ok (if p.isFinite then clampTo p b.lower b.upper else neutralProbability) := by
  unfold clamp
  split
  · exact clampChecked_eq h
  · rfl

end DoublesLineup.ProbabilityBounds
