import Mathlib.Analysis.Real.Sqrt
import DoublesLineup.Proofs.Stats.Quantile
/-! # The blind score in exact arithmetic

`blindScoreExact` is the formula of `blindScoreFrom` with every operation on doubles taken in
exact arithmetic: the weights normalised by their largest and then by their sum, the wins of a
scenario summed, the expected wins a weighted sum, the volatility the square root of a weighted
sum of squared deviations, the floor the entry of nearest rank of the sorted wins, and the
coverages means. `exactBlindScore` applies it to the estimates the lookup finds, as
`blindScore_eq` applies `blindScoreFrom`.

In exact arithmetic the order of a sum does not matter and normalising the weights commutes with
reordering them (`Exact.normaliseWeights_eq_map`), so the exact score is the same for our pairs
in any order and for the scenarios, with their weights, in any order.
-/

namespace DoublesLineup

/-- A score with its quantities in exact arithmetic. -/
structure ExactScore where
  expectedWins : ℝ
  floorWins : ℝ
  volatility : ℝ
  overall : ℝ
  game : ℝ
  matchup : ℝ
  games : ℕ

namespace Exact

/-- The value of a double; an infinity or not a number reads as zero. -/
noncomputable def value (x : Float) : ℝ := exactValue x

noncomputable def mean (xs : List ℝ) : ℝ := if xs.isEmpty then 0 else xs.sum / xs.length

noncomputable def weightedMean (values weights : List ℝ) : ℝ :=
  (List.zipWith (· * ·) values weights).sum

noncomputable def weightedStdev (values weights : List ℝ) (center : ℝ) : ℝ :=
  Real.sqrt (max (List.zipWith (fun v w => w * ((v - center) * (v - center))) values weights).sum 0)

noncomputable def sorted (xs : List ℝ) : List ℝ := xs.mergeSort fun a b => decide (a ≤ b)

/-- The nearest-rank quantile, the rank worked out from `q` and the sample's size as the program
does. -/
noncomputable def quantile (xs : List ℝ) (q : Float) : ℝ :=
  if xs.isEmpty then 0 else (sorted xs).getD (nearestRank q xs.length - 1) 0

/-- Scenario weights as a probability vector: cleaned, divided by the largest, then scaled by
one over their sum; equal weights when nothing positive remains. -/
noncomputable def normaliseWeights (weights : List Float) : List ℝ :=
  let clean := weights.map fun w => value (cleanWeight w)
  let largest := clean.foldl max 0
  if 0 < largest then
    let scaled := clean.map (· / largest)
    scaled.map (· * (1 / scaled.sum))
  else if clean.isEmpty then []
  else clean.map fun _ => 1 / clean.length

noncomputable def rowWins (row : List WinEstimate) : ℝ := (row.map fun e => value e.probability).sum

/-- The weight a normalised vector gives to one of its entries. -/
noncomputable def share (weights : List Float) (w : Float) : ℝ :=
  let clean := weights.map fun w => value (cleanWeight w)
  let largest := clean.foldl max 0
  if 0 < largest then value (cleanWeight w) / largest * (1 / (clean.map (· / largest)).sum)
  else 1 / weights.length

theorem normaliseWeights_eq_map (weights : List Float) :
    normaliseWeights weights = weights.map (share weights) := by
  unfold normaliseWeights share
  dsimp only
  split
  · simp [List.map_map, Function.comp_def]
  · split
    · rename_i hempty
      simp only [List.isEmpty_map, List.isEmpty_iff] at hempty
      simp [hempty]
    · simp [List.map_map, Function.comp_def]

theorem foldl_max_perm {xs ys : List ℝ} (h : xs.Perm ys) (init : ℝ) :
    xs.foldl max init = ys.foldl max init :=
  h.foldl_eq' (fun _ _ _ _ _ => max_right_comm _ _ _) init

theorem share_perm {weights' weights : List Float} (h : weights'.Perm weights) :
    share weights' = share weights := by
  funext w
  unfold share
  simp only [foldl_max_perm (h.map _), ((h.map _).map _).sum_eq, h.length_eq]

theorem mean_perm {xs ys : List ℝ} (h : xs.Perm ys) : mean xs = mean ys := by
  unfold mean
  rw [h.isEmpty_eq, h.sum_eq, h.length_eq]

theorem sorted_perm {xs ys : List ℝ} (h : xs.Perm ys) : sorted xs = sorted ys := by
  have htrans : ∀ a b c : ℝ, decide (a ≤ b) = true → decide (b ≤ c) = true →
      decide (a ≤ c) = true := by
    simp only [decide_eq_true_eq]
    exact fun _ _ _ => le_trans
  have htotal : ∀ a b : ℝ, (decide (a ≤ b) || decide (b ≤ a)) = true := by
    simpa using le_total
  unfold sorted
  refine List.Perm.eq_of_pairwise ?_ (List.pairwise_mergeSort htrans htotal xs)
    (List.pairwise_mergeSort htrans htotal ys)
    ((List.mergeSort_perm xs _).trans (h.trans (List.mergeSort_perm ys _).symm))
  intro a b _ _ hab hba
  exact le_antisymm (of_decide_eq_true hab) (of_decide_eq_true hba)

theorem quantile_perm {xs ys : List ℝ} (h : xs.Perm ys) (q : Float) :
    quantile xs q = quantile ys q := by
  unfold quantile
  rw [h.isEmpty_eq, h.length_eq, sorted_perm h]

theorem rowWins_perm {row' row : List WinEstimate} (h : row'.Perm row) :
    rowWins row' = rowWins row :=
  (h.map _).sum_eq

theorem sum_zipWith_map_perm {α : Type} {xs ys : List α} (h : xs.Perm ys) (op : ℝ → ℝ → ℝ)
    (f g : α → ℝ) :
    (List.zipWith op (xs.map f) (xs.map g)).sum = (List.zipWith op (ys.map f) (ys.map g)).sum := by
  rw [List.zipWith_map, List.zipWith_self, List.zipWith_map, List.zipWith_self]
  exact (h.map _).sum_eq

end Exact

/-- The formula of `blindScoreFrom` in exact arithmetic. -/
noncomputable def blindScoreExact (neutral : Bool) (rows : List (Float × List WinEstimate))
    (own : List Float) (games : ℕ) (q : Float) : ExactScore :=
  let neutralWins := Exact.value neutralProbability * games
  if neutral then ⟨neutralWins, neutralWins, 0, 0, Exact.mean (own.map Exact.value), 0, games⟩
  else
    let weights := Exact.normaliseWeights (rows.map (·.1))
    let wins := rows.map (Exact.rowWins ·.2)
    let all := (rows.map (·.2)).flatten
    let expected := Exact.weightedMean wins weights
    ⟨expected, Exact.quantile wins q, Exact.weightedStdev wins weights expected,
      Exact.mean (all.map (Exact.value ·.reliability)), Exact.mean (own.map Exact.value),
      Exact.mean (all.map (Exact.value ·.matchupReliability)), games⟩

/-- The blind score in exact arithmetic: the estimates the lookup finds, and the scorer's
formula on them exact. -/
noncomputable def exactBlindScore (pairing : Pairing) (scenarios : List Scenario)
    (l : StatsLookup) (q : Float) : Except Fault ExactScore :=
  if l.blindFinds pairing scenarios then
    .ok (blindScoreExact (blindNeutral pairing scenarios)
      (scenarios.map fun s => (s.weight, l.responseRow pairing.pairs s.pairs))
      (l.ownReliabilities pairing.pairs) pairing.pairs.length q)
  else .error l.boundsFault

theorem flatten_perm_of_forall₂ {α β : Type} {rows' rows : List (α × List β)}
    (h : List.Forall₂ (fun r' r => r'.1 = r.1 ∧ r'.2.Perm r.2) rows' rows) :
    (rows'.map (·.2)).flatten.Perm (rows.map (·.2)).flatten := by
  induction h with
  | nil => exact List.Perm.refl _
  | cons hab _ ih => exact hab.2.append ih

theorem blindScoreExact_forall₂_perm {rows' rows : List (Float × List WinEstimate)}
    (h : List.Forall₂ (fun r' r => r'.1 = r.1 ∧ r'.2.Perm r.2) rows' rows)
    {own' own : List Float} (hown : own'.Perm own) (neutral : Bool) (games : ℕ) (q : Float) :
    blindScoreExact neutral rows' own' games q = blindScoreExact neutral rows own games q := by
  have hweights : rows'.map (·.1) = rows.map (·.1) := map_eq_map_of_forall₂ (fun _ _ hr => hr.1) h
  have hwins : rows'.map (Exact.rowWins ·.2) = rows.map (Exact.rowWins ·.2) :=
    map_eq_map_of_forall₂ (fun _ _ hr => Exact.rowWins_perm hr.2) h
  have hall := flatten_perm_of_forall₂ h
  unfold blindScoreExact
  simp only [hweights, hwins, Exact.mean_perm (hown.map _), Exact.mean_perm (hall.map _)]

theorem blindScoreExact_perm {rows' rows : List (Float × List WinEstimate)} (h : rows'.Perm rows)
    (neutral : Bool) (own : List Float) (games : ℕ) (q : Float) :
    blindScoreExact neutral rows' own games q = blindScoreExact neutral rows own games q := by
  have hshare := Exact.share_perm (h.map (·.1))
  have hweights' : Exact.normaliseWeights (rows'.map (·.1)) =
      rows'.map fun r => Exact.share (rows.map (·.1)) r.1 := by
    rw [Exact.normaliseWeights_eq_map, hshare, List.map_map]
    rfl
  have hweights : Exact.normaliseWeights (rows.map (·.1)) =
      rows.map fun r => Exact.share (rows.map (·.1)) r.1 := by
    rw [Exact.normaliseWeights_eq_map, List.map_map]
    rfl
  have hmean := Exact.sum_zipWith_map_perm h (· * ·) (Exact.rowWins ·.2)
    fun r => Exact.share (rows.map (·.1)) r.1
  have hspread := fun c => Exact.sum_zipWith_map_perm h (fun v w => w * ((v - c) * (v - c)))
    (Exact.rowWins ·.2) fun r => Exact.share (rows.map (·.1)) r.1
  have hall := (h.map (·.2)).flatten
  unfold blindScoreExact Exact.weightedMean Exact.weightedStdev
  simp only [hweights', hweights, hmean, hspread, Exact.quantile_perm (h.map (Exact.rowWins ·.2)),
    Exact.mean_perm (hall.map fun e => Exact.value e.reliability),
    Exact.mean_perm (hall.map fun e => Exact.value e.matchupReliability)]

theorem exactBlindScore_pair_perm {pairing' pairing : Pairing}
    (h : pairing'.pairs.Perm pairing.pairs) (scenarios : List Scenario) (l : StatsLookup)
    (q : Float) : exactBlindScore pairing' scenarios l q = exactBlindScore pairing scenarios l q := by
  have hrows : List.Forall₂ (fun r' r => r'.1 = r.1 ∧ r'.2.Perm r.2)
      (scenarios.map fun s => (s.weight, l.responseRow pairing'.pairs s.pairs))
      (scenarios.map fun s => (s.weight, l.responseRow pairing.pairs s.pairs)) := by
    rw [List.forall₂_map_left_iff, List.forall₂_map_right_iff, List.forall₂_same]
    exact fun _ _ => ⟨rfl, h.map _⟩
  have hown : (l.ownReliabilities pairing'.pairs).Perm (l.ownReliabilities pairing.pairs) :=
    h.map _
  unfold exactBlindScore
  rw [blindFinds_pair_perm h, blindNeutral_pair_perm h, h.length_eq,
    blindScoreExact_forall₂_perm hrows hown]

theorem exactBlindScore_scenario_perm (pairing : Pairing) {scenarios' scenarios : List Scenario}
    (h : scenarios'.Perm scenarios) (l : StatsLookup) (q : Float) :
    exactBlindScore pairing scenarios' l q = exactBlindScore pairing scenarios l q := by
  unfold exactBlindScore
  rw [blindFinds_scenario_perm pairing h, blindNeutral_scenario_perm pairing h,
    blindScoreExact_perm (h.map _)]

/-- The blind score does not depend on the order of its inputs. Reordering the opponents within
each scenario leaves the expected wins, the floor and the volatility the same doubles, or the
same fault. Reordering our pairs, or the scenarios with their weights, leaves the score the same
in exact arithmetic and the faults the same; reordering the scenarios leaves the floor the same
double. -/
theorem blindScore_order_invariant (l : StatsLookup) (pairing : Pairing)
    (scenarios : List Scenario) (q : Float) :
    (∀ scenarios' : List Scenario,
      List.Forall₂ (fun s' s => s'.weight = s.weight ∧ s'.pairs.Perm s.pairs) scenarios' scenarios →
      (fun s => (s.expectedWins, s.floorWins, s.volatility)) <$> blindScore pairing scenarios' l q =
        (fun s => (s.expectedWins, s.floorWins, s.volatility)) <$>
          blindScore pairing scenarios l q) ∧
    (∀ pairing' : Pairing, pairing'.pairs.Perm pairing.pairs →
      (fun _ => ()) <$> blindScore pairing' scenarios l q =
          (fun _ => ()) <$> blindScore pairing scenarios l q ∧
        exactBlindScore pairing' scenarios l q = exactBlindScore pairing scenarios l q) ∧
    (∀ scenarios' : List Scenario, scenarios'.Perm scenarios →
      (·.floorWins) <$> blindScore pairing scenarios' l q =
          (·.floorWins) <$> blindScore pairing scenarios l q ∧
        exactBlindScore pairing scenarios' l q = exactBlindScore pairing scenarios l q) :=
  ⟨fun _ h => blindScore_opponent_perm pairing h l q,
    fun _ h => ⟨blindScore_pair_perm h scenarios l q, exactBlindScore_pair_perm h scenarios l q⟩,
    fun _ h => ⟨blindScore_scenario_perm pairing h l q,
      exactBlindScore_scenario_perm pairing h l q⟩⟩

theorem blindScore_order_invariant_of_swapped_opponents :
    let l := StatsLookup.ofBundle {} .scoring
    let pairing : Pairing := ⟨[⟨"a", "b"⟩]⟩
    let cd : Pair := ⟨"c", "d"⟩
    let ef : Pair := ⟨"e", "f"⟩
    List.Forall₂ (fun s' s : Scenario => s'.weight = s.weight ∧ s'.pairs.Perm s.pairs)
        [⟨1.0, [ef, cd]⟩] [⟨1.0, [cd, ef]⟩] ∧
      (fun s => (s.expectedWins, s.floorWins, s.volatility)) <$>
          blindScore pairing [⟨1.0, [ef, cd]⟩] l 0.2 =
        (fun s => (s.expectedWins, s.floorWins, s.volatility)) <$>
          blindScore pairing [⟨1.0, [cd, ef]⟩] l 0.2 := by
  intro l pairing cd ef
  have h : List.Forall₂ (fun s' s : Scenario => s'.weight = s.weight ∧ s'.pairs.Perm s.pairs)
      [⟨1.0, [ef, cd]⟩] [⟨1.0, [cd, ef]⟩] :=
    .cons ⟨rfl, List.Perm.swap _ _ _⟩ .nil
  exact ⟨h, (blindScore_order_invariant l pairing _ 0.2).1 _ h⟩

end DoublesLineup
