import DoublesLineup.Score.Basic
import DoublesLineup.Proofs.Numeric.Total
/-! # Ranking is a stable sort by a lawful order

Under either objective `Score.compare` is a lexicographic combination of three comparisons,
each of the keys `totalKey` gives to a field, two of them read in reverse. Such a
combination is a lawful total preorder (`Std.TransCmp`), so `rankBy` returns a permutation of
its input in which no score comes before a better one, and it keeps in their input order two
scores that compare equal.

Two scores compare equal exactly when their three fields have the same bits, since the total
order tells every two bit patterns apart. So the scores that compare equal to one score form a
class, and ranking keeps each class in its input order (`filter_rankBy`): the ranking is a
stable sort.
-/

namespace DoublesLineup.Score

theorem compare_eq_lex (o : Objective) : Score.compare o = match o with
    | .maxExpectedWins =>
      compareLex (compareLex (fun a b => compareOn (totalKey ·.expectedWins) b a)
        (fun a b => compareOn (totalKey ·.floorWins) b a)) (compareOn (totalKey ·.volatility))
    | .minimizeDownside =>
      compareLex (compareLex (fun a b => compareOn (totalKey ·.floorWins) b a)
        (fun a b => compareOn (totalKey ·.expectedWins) b a)) (compareOn (totalKey ·.volatility)) := by
  cases o <;> rfl

instance instTransCmpCompare (o : Objective) : Std.TransCmp (Score.compare o) := by
  rw [compare_eq_lex]
  cases o <;> exact inferInstance

theorem compare_swap (o : Objective) (a b : Score) : compare o a b = (compare o b a).swap :=
  Std.OrientedCmp.eq_swap

theorem compare_le_trans {o : Objective} {a b c : Score} (hab : compare o a b ≠ .gt)
    (hbc : compare o b c ≠ .gt) : compare o a c ≠ .gt := by
  have hac := Std.TransCmp.isLE_trans (Ordering.isLE_iff_ne_gt.mpr hab)
    (Ordering.isLE_iff_ne_gt.mpr hbc)
  exact Ordering.isLE_iff_ne_gt.mp hac

theorem compare_le_total (o : Objective) (a b : Score) : compare o a b ≠ .gt ∨ compare o b a ≠ .gt := by
  rw [compare_swap o b a]
  cases compare o a b <;> simp

theorem compare_self (o : Objective) (a : Score) : compare o a a = .eq :=
  Std.ReflCmp.compare_self

theorem compare_eq_eq_iff (o : Objective) (a b : Score) :
    compare o a b = .eq ↔ totalCompare a.expectedWins b.expectedWins = .eq ∧
      totalCompare a.floorWins b.floorWins = .eq ∧
        totalCompare a.volatility b.volatility = .eq := by
  cases o <;>
    simp only [compare, Ordering.then_eq_eq, totalCompare_swap a.expectedWins,
      totalCompare_swap a.floorWins, Ordering.swap_eq_eq] <;>
    grind

theorem compare_maxExpectedWins_eq_lt (a b : Score) :
    compare .maxExpectedWins a b = .lt ↔ totalCompare a.expectedWins b.expectedWins = .gt ∨
      totalCompare a.expectedWins b.expectedWins = .eq ∧
        (totalCompare a.floorWins b.floorWins = .gt ∨
          totalCompare a.floorWins b.floorWins = .eq ∧
            totalCompare a.volatility b.volatility = .lt) := by
  simp only [compare, Ordering.then_eq_lt, Ordering.then_eq_eq, totalCompare_swap a.expectedWins,
    totalCompare_swap a.floorWins, Ordering.swap_eq_lt, Ordering.swap_eq_eq]
  grind

theorem compare_minimizeDownside_eq_lt (a b : Score) :
    compare .minimizeDownside a b = .lt ↔ totalCompare a.floorWins b.floorWins = .gt ∨
      totalCompare a.floorWins b.floorWins = .eq ∧
        (totalCompare a.expectedWins b.expectedWins = .gt ∨
          totalCompare a.expectedWins b.expectedWins = .eq ∧
            totalCompare a.volatility b.volatility = .lt) := by
  simp only [compare, Ordering.then_eq_lt, Ordering.then_eq_eq, totalCompare_swap a.expectedWins,
    totalCompare_swap a.floorWins, Ordering.swap_eq_lt, Ordering.swap_eq_eq]
  grind

theorem compare_not_lt_of_lt {o : Objective} {a b : Score} (h : compare o a b = .lt) :
    compare o b a ≠ .lt := by
  rw [Std.OrientedCmp.gt_iff_lt.mpr h]
  decide

theorem compare_lt_of_lt_of_not_lt {o : Objective} {a b c : Score} (hab : compare o a b = .lt)
    (hcb : compare o c b ≠ .lt) : compare o a c = .lt := by
  have hbc : (compare o b c).isLE := by
    rw [compare_swap o b c]
    cases h : compare o c b <;> simp_all
  exact Std.TransCmp.lt_of_lt_of_isLE hab hbc

end DoublesLineup.Score

namespace DoublesLineup

section

variable {α : Type} (score : α → Score) (o : Objective)

theorem rankBy_le_trans (a b c : α)
    (hab : (Score.compare o (score a) (score b) != .gt) = true)
    (hbc : (Score.compare o (score b) (score c) != .gt) = true) :
    (Score.compare o (score a) (score c) != .gt) = true := by
  simp only [bne_iff_ne, ne_eq] at hab hbc ⊢
  exact Score.compare_le_trans hab hbc

theorem rankBy_le_total (a b : α) :
    ((Score.compare o (score a) (score b) != .gt) || (Score.compare o (score b) (score a) != .gt)) =
      true := by
  simpa only [Bool.or_eq_true, bne_iff_ne] using Score.compare_le_total o (score a) (score b)

theorem perm_rankBy (xs : List α) : (rankBy score o xs).Perm xs :=
  List.mergeSort_perm xs _

theorem length_rankBy (xs : List α) : (rankBy score o xs).length = xs.length :=
  (perm_rankBy score o xs).length_eq

theorem mem_rankBy {xs : List α} {a : α} : a ∈ rankBy score o xs ↔ a ∈ xs :=
  (perm_rankBy score o xs).mem_iff

/-- No entry of a ranking is followed by a strictly better one. -/
theorem pairwise_rankBy (xs : List α) :
    (rankBy score o xs).Pairwise fun a b => Score.compare o (score a) (score b) ≠ .gt := by
  have sorted := List.pairwise_mergeSort (rankBy_le_trans score o) (rankBy_le_total score o) xs
  exact sorted.imp fun h => by simpa only [bne_iff_ne] using h

theorem filter_rankBy (xs : List α) (x : α) :
    (rankBy score o xs).filter (fun y => Score.compare o (score y) (score x) == .eq) =
      xs.filter fun y => Score.compare o (score y) (score x) == .eq := by
  have hsorted : (xs.filter fun y => Score.compare o (score y) (score x) == .eq).Pairwise
      fun a b => (Score.compare o (score a) (score b) != .gt) = true := by
    refine List.pairwise_of_forall_mem_list fun a ha b hb => ?_
    simp only [List.mem_filter, beq_iff_eq] at ha hb
    have hab : Score.compare o (score a) (score b) = .eq :=
      Std.TransCmp.eq_trans ha.2 (Std.OrientedCmp.eq_symm hb.2)
    simp [hab]
  have hsub := (List.sublist_mergeSort (rankBy_le_trans score o) (rankBy_le_total score o) hsorted
    List.filter_sublist).filter fun y => Score.compare o (score y) (score x) == .eq
  rw [List.filter_filter, List.filter_congr (fun y _ => Bool.and_self _)] at hsub
  exact (hsub.eq_of_length ((perm_rankBy score o xs).filter _).length_eq.symm).symm

theorem pair_sublist_rankBy {xs : List α} {a b : α} (h : [a, b].Sublist xs)
    (hab : Score.compare o (score a) (score b) ≠ .gt) : [a, b].Sublist (rankBy score o xs) :=
  List.pair_sublist_mergeSort (rankBy_le_trans score o) (rankBy_le_total score o)
    (by simpa only [bne_iff_ne] using hab) h

end

/-- Under either objective, comparing scores is a lawful total order up to the bits of the three
fields it reads: swapping the operands reverses the answer, both `≠ .gt` and `.lt` are transitive,
and two scores compare equal exactly when the fields are equal in the total order, that is, have
the same bits. Maximising expected wins reads expected wins (more first), then the floor (higher
first), then volatility (lower first); minimising the downside reads the floor first and expected
wins second. Ranking by either returns a permutation of its input in which no entry is followed by
a better one, and the entries that compare equal keep their input order. -/
theorem rankBy_sorts_by_lawful_compare :
    (∀ o a b, Score.compare o a b = (Score.compare o b a).swap) ∧
    (∀ o a b c, Score.compare o a b ≠ .gt → Score.compare o b c ≠ .gt →
      Score.compare o a c ≠ .gt) ∧
    (∀ o a b c, Score.compare o a b = .lt → Score.compare o b c = .lt →
      Score.compare o a c = .lt) ∧
    (∀ o a b, Score.compare o a b = .eq ↔ totalCompare a.expectedWins b.expectedWins = .eq ∧
      totalCompare a.floorWins b.floorWins = .eq ∧
        totalCompare a.volatility b.volatility = .eq) ∧
    (∀ x y : Float, totalCompare x y = .eq ↔ x.toBits = y.toBits) ∧
    (∀ a b, Score.compare .maxExpectedWins a b = .lt ↔
      totalCompare a.expectedWins b.expectedWins = .gt ∨
        totalCompare a.expectedWins b.expectedWins = .eq ∧
          (totalCompare a.floorWins b.floorWins = .gt ∨
            totalCompare a.floorWins b.floorWins = .eq ∧
              totalCompare a.volatility b.volatility = .lt)) ∧
    (∀ a b, Score.compare .minimizeDownside a b = .lt ↔
      totalCompare a.floorWins b.floorWins = .gt ∨
        totalCompare a.floorWins b.floorWins = .eq ∧
          (totalCompare a.expectedWins b.expectedWins = .gt ∨
            totalCompare a.expectedWins b.expectedWins = .eq ∧
              totalCompare a.volatility b.volatility = .lt)) ∧
    ∀ {α : Type} (score : α → Score) (o : Objective) (xs : List α),
      (rankBy score o xs).Perm xs ∧
      (rankBy score o xs).Pairwise (fun a b => Score.compare o (score a) (score b) ≠ .gt) ∧
      ∀ x, (rankBy score o xs).filter (fun y => Score.compare o (score y) (score x) == .eq) =
        xs.filter fun y => Score.compare o (score y) (score x) == .eq :=
  ⟨Score.compare_swap, fun _ _ _ _ => Score.compare_le_trans,
    fun _ _ _ _ => Std.TransCmp.lt_trans, Score.compare_eq_eq_iff,
    fun _ _ => totalCompare_eq_eq_iff, Score.compare_maxExpectedWins_eq_lt,
    Score.compare_minimizeDownside_eq_lt,
    fun score o xs => ⟨perm_rankBy score o xs, pairwise_rankBy score o xs, filter_rankBy score o xs⟩⟩

/-- Two scores from the ranking tests: more expected wins come first, and the third score, below
the second, is below the first. -/
theorem rankBy_sorts_by_lawful_compare_of_tie_breaks :
    let a : Score := ⟨3.0, 2.5, 0.9, default, 0⟩
    let b : Score := ⟨3.0, 2.0, 0.2, default, 0⟩
    let c : Score := ⟨2.0, 2.5, 0.1, default, 0⟩
    Score.compare .maxExpectedWins a b = .lt ∧ Score.compare .maxExpectedWins b c = .lt ∧
      Score.compare .maxExpectedWins a c = .lt := by
  intro a b c
  have hab : Score.compare .maxExpectedWins a b = .lt := by decide
  have hbc : Score.compare .maxExpectedWins b c = .lt := by decide
  exact ⟨hab, hbc, rankBy_sorts_by_lawful_compare.2.2.1 .maxExpectedWins a b c hab hbc⟩

end DoublesLineup
