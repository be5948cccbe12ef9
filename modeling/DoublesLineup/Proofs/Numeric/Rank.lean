import DoublesLineup.Proofs.Numeric.Order
/-! # Doubles that are numbers are totally preordered

The comparison of two doubles that are numbers is the lexicographic comparison of their ranks
in `ℤ × ℤ × ℤ`: the class (negative infinity, negative finite, zero, positive finite, positive
infinity), then exponent and mantissa, both negated for a negative number. So `≤` and `<` on
such doubles obey the laws of a linear preorder, and the two zeros are the only distinct doubles
of one rank: a double that is at most and at least another unpacks as it does, or both are
zeros.
-/

namespace DoublesLineup.FloatOrder

open Float.Model UnpackedFloat

theorem int_compare_neg (a b : ℤ) : compare (-a) (-b) = compare b a := by
  simp only [compare, compareOfLessAndEq]
  split_ifs <;> first | rfl | omega

theorem int_compare_natCast (a b : ℕ) : compare (a : ℤ) (b : ℤ) = compare a b := by
  simp only [compare, compareOfLessAndEq]
  split_ifs <;> first | rfl | omega

/-- The lexicographic comparison of integer triples. -/
def lexCompare (x y : ℤ × ℤ × ℤ) : Ordering :=
  (compare x.1 y.1).then ((compare x.2.1 y.2.1).then (compare x.2.2 y.2.2))

section Lex

variable {x y z : ℤ × ℤ × ℤ}

theorem lexCompare_swap (x y : ℤ × ℤ × ℤ) : lexCompare y x = (lexCompare x y).swap := by
  simp only [lexCompare, Ordering.swap_then, Int.compare_swap]

theorem lexCompare_eq_eq_iff : lexCompare x y = .eq ↔ x = y := by
  obtain ⟨a, b, c⟩ := x
  obtain ⟨a', b', c'⟩ := y
  simp only [lexCompare, Ordering.then_eq_eq, Int.compare_eq_eq, Prod.mk.injEq]

theorem lexCompare_lt_of_le_of_lt (hxy : lexCompare x y ≠ .gt) (hyz : lexCompare y z = .lt) :
    lexCompare x z = .lt := by
  simp only [lexCompare, ne_eq, Ordering.then_eq_lt, Ordering.then_eq_gt, Int.compare_eq_lt,
    Int.compare_eq_gt, Int.compare_eq_eq] at hxy hyz ⊢
  omega

theorem lexCompare_le_trans (hxy : lexCompare x y ≠ .gt) (hyz : lexCompare y z ≠ .gt) :
    lexCompare x z ≠ .gt := by
  simp only [lexCompare, ne_eq, Ordering.then_eq_gt, Int.compare_eq_gt, Int.compare_eq_eq]
    at hxy hyz ⊢
  omega

end Lex

/-- Where a double that is a number stands among the others. Not a number has no place; it is
given that of zero. -/
def rank : UnpackedFloat → ℤ × ℤ × ℤ
  | .infinity .negative => (-2, 0, 0)
  | .finite .negative m e _ => (-1, -e, -m)
  | .zero _ => (0, 0, 0)
  | .notANumber => (0, 0, 0)
  | .finite .positive m e _ => (1, e, m)
  | .infinity .positive => (2, 0, 0)

theorem compare_eq_lexCompare {a b : UnpackedFloat} (ha : a ≠ .notANumber)
    (hb : b ≠ .notANumber) : a.compare b = some (lexCompare (rank a) (rank b)) := by
  rcases a with ⟨_ | _⟩ | _ | ⟨_ | _⟩ | ⟨_ | _, m₁, e₁, _⟩ <;>
  rcases b with ⟨_ | _⟩ | _ | ⟨_ | _⟩ | ⟨_ | _, m₂, e₂, _⟩ <;>
  simp_all [UnpackedFloat.compare, rank, lexCompare, sign_compare_self, sign_compare_neg_pos,
    sign_compare_pos_neg, Ordering.swap_then, Int.compare_swap, Nat.compare_swap,
    int_compare_neg, int_compare_natCast] <;> rfl

theorem eq_of_rank_eq {a b : UnpackedFloat} (ha : a ≠ .notANumber) (hb : b ≠ .notANumber)
    (h : rank a = rank b) : a = b ∨ (∃ s, a = .zero s) ∧ ∃ s, b = .zero s := by
  rcases a with ⟨_ | _⟩ | _ | ⟨_ | _⟩ | ⟨_ | _, m₁, e₁, _⟩ <;>
  rcases b with ⟨_ | _⟩ | _ | ⟨_ | _⟩ | ⟨_ | _, m₂, e₂, _⟩ <;>
  simp_all [rank]

theorem unpack_ne_nan {a : Float} (h : a.isNaN = false) : a.toModel.unpack ≠ .notANumber := by
  intro hnan
  rw [show a.isNaN = true from UnpackedFloat.isNaN_iff.mpr hnan] at h
  cases h

theorem compare_nan_right (a : UnpackedFloat) : a.compare .notANumber = none := by
  cases a <;> rfl

theorem compare_ne_none_of_le {a b : Float} (h : a ≤ b) :
    a.toModel.unpack ≠ .notANumber ∧ b.toModel.unpack ≠ .notANumber := by
  rw [le_iff, UnpackedFloat.le] at h
  constructor <;> intro hnan <;> rw [hnan] at h
  · cases h
  · rw [compare_nan_right] at h
    cases h

theorem le_iff_rank {a b : Float} (ha : a.isNaN = false) (hb : b.isNaN = false) :
    a ≤ b ↔ lexCompare (rank a.toModel.unpack) (rank b.toModel.unpack) ≠ .gt := by
  rw [le_iff, UnpackedFloat.le, compare_eq_lexCompare (unpack_ne_nan ha) (unpack_ne_nan hb)]
  cases lexCompare (rank a.toModel.unpack) (rank b.toModel.unpack) <;> decide

theorem lt_iff_rank {a b : Float} (ha : a.isNaN = false) (hb : b.isNaN = false) :
    a < b ↔ lexCompare (rank a.toModel.unpack) (rank b.toModel.unpack) = .lt := by
  rw [lt_iff, UnpackedFloat.lt, compare_eq_lexCompare (unpack_ne_nan ha) (unpack_ne_nan hb)]
  cases lexCompare (rank a.toModel.unpack) (rank b.toModel.unpack) <;> decide

theorem isNaN_eq_false_of_le {a b : Float} (h : a ≤ b) : a.isNaN = false ∧ b.isNaN = false := by
  obtain ⟨ha, hb⟩ := compare_ne_none_of_le h
  simp only [Float.isNaN, Float.Model.isNaN, Bool.eq_false_iff, ne_eq, UnpackedFloat.isNaN_iff]
  exact ⟨ha, hb⟩

theorem isNaN_eq_false_of_lt {a b : Float} (h : a < b) : a.isNaN = false ∧ b.isNaN = false :=
  isNaN_eq_false_of_le (le_of_lt h)

theorem le_refl_of_isNaN {a : Float} (ha : a.isNaN = false) : a ≤ a := by
  rw [le_iff_rank ha ha, lexCompare_eq_eq_iff.mpr rfl]
  decide

theorem lt_of_not_le {a b : Float} (ha : a.isNaN = false) (hb : b.isNaN = false) (h : ¬a ≤ b) :
    b < a := by
  rw [le_iff_rank ha hb, ne_eq, not_not] at h
  rw [lt_iff_rank hb ha, lexCompare_swap, h]
  rfl

theorem lt_of_le_of_lt {a b c : Float} (hab : a ≤ b) (hbc : b < c) : a < c := by
  obtain ⟨ha, hb⟩ := isNaN_eq_false_of_le hab
  obtain ⟨-, hc⟩ := isNaN_eq_false_of_lt hbc
  rw [le_iff_rank ha hb] at hab
  rw [lt_iff_rank hb hc] at hbc
  rw [lt_iff_rank ha hc]
  exact lexCompare_lt_of_le_of_lt hab hbc

theorem le_trans {a b c : Float} (hab : a ≤ b) (hbc : b ≤ c) : a ≤ c := by
  obtain ⟨ha, hb⟩ := isNaN_eq_false_of_le hab
  obtain ⟨-, hc⟩ := isNaN_eq_false_of_le hbc
  rw [le_iff_rank ha hb] at hab
  rw [le_iff_rank hb hc] at hbc
  rw [le_iff_rank ha hc]
  exact lexCompare_le_trans hab hbc

theorem lt_trans {a b c : Float} (hab : a < b) (hbc : b < c) : a < c :=
  lt_of_le_of_lt (le_of_lt hab) hbc

theorem lt_irrefl (a : Float) : ¬a < a := by
  intro h
  obtain ⟨ha, -⟩ := isNaN_eq_false_of_lt h
  rw [lt_iff_rank ha ha, (lexCompare_eq_eq_iff).mpr rfl] at h
  cases h

theorem unpack_eq_of_le_of_le {a b : Float} (hab : a ≤ b) (hba : b ≤ a) :
    a.toModel.unpack = b.toModel.unpack ∨
      (∃ s, a.toModel.unpack = .zero s) ∧ ∃ s, b.toModel.unpack = .zero s := by
  obtain ⟨ha, hb⟩ := isNaN_eq_false_of_le hab
  rw [le_iff_rank ha hb] at hab
  rw [le_iff_rank hb ha, lexCompare_swap] at hba
  have heq : lexCompare (rank a.toModel.unpack) (rank b.toModel.unpack) = .eq := by
    revert hab hba
    cases lexCompare (rank a.toModel.unpack) (rank b.toModel.unpack) <;> decide
  exact eq_of_rank_eq (unpack_ne_nan ha) (unpack_ne_nan hb) (lexCompare_eq_eq_iff.mp heq)

end DoublesLineup.FloatOrder
