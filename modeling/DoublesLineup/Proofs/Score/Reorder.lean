import DoublesLineup.Proofs.Score.Reference
import DoublesLineup.Proofs.Numeric.Sum
import DoublesLineup.Proofs.Numeric.Total
/-! # The blind score does not depend on the order of its inputs

A lookup faults only where it clamps into its bounds, always with the same fault
(`StatsLookup.boundsFault`). So a blind score either faults with that fault or succeeds, and it
succeeds exactly when every own estimate and, unless every game is even odds, every best
response it needs is found (`StatsLookup.blindFinds`); it is then a formula of those estimates
(`blindScore_eq`). Whether an estimate is found does not depend on the order of anything, so a
reordered input faults exactly when the input does (`blindScore_pair_perm`,
`blindScore_scenario_perm`).

Reordering the opponents of a scenario changes a best response at most in which of several
equal estimates it picks, and the greatest win probability at most in the sign of a zero; a
scenario's wins, summed from `0.0`, do not see that sign. So the expected wins, the floor and
the volatility are the same doubles (`blindScore_opponent_perm`). Reordering the scenarios with
their weights reorders the wins, and the floor, taken on the sorted wins, is the same double.
The exact reading of the whole score, unmoved by reordering the pairs or the scenarios, is
`exactBlindScore`.
-/

namespace DoublesLineup

open FloatOrder FloatSum

/-! ### Faults -/

theorem ProbabilityBounds.clamp_error {b : ProbabilityBounds} {p : Float} {f : Fault}
    (h : b.clamp p = .error f) : f = .invalidClamp b.lower b.upper := by
  unfold ProbabilityBounds.clamp clampChecked at h
  split at h
  · split at h
    · cases h
    · cases h
      rfl
  · cases h

theorem Blender.blend_error {b : Blender} {base : Float} {pd : Option Float} {reliability : Float}
    {correlation : Option Float} {f : Fault}
    (h : b.blend base pd reliability correlation = .error f) :
    f = .invalidClamp b.bounds.lower b.bounds.upper := by
  unfold Blender.blend at h
  cases pd <;> dsimp only at h <;> split_ifs at h <;>
    first | exact ProbabilityBounds.clamp_error h | cases h

namespace StatsLookup

/-- The fault of a clamp into the lookup's bounds: the only fault a lookup gives. -/
def boundsFault (l : StatsLookup) : Fault :=
  .invalidClamp l.blender.bounds.lower l.blender.bounds.upper

variable {l : StatsLookup} {f : Fault}

theorem estimate_error {winRate : Float} {pd : Option Float} {reliability : Float}
    {correlation : Option Float} {source : Source}
    (h : l.estimate winRate pd reliability correlation source = .error f) : f = l.boundsFault := by
  unfold estimate at h
  cases hblend : l.blender.blend winRate pd reliability correlation with
  | error e =>
    rw [hblend] at h
    cases h
    exact Blender.blend_error hblend
  | ok v =>
    rw [hblend, ok_bind] at h
    cases hclamp : l.blender.bounds.clamp v with
    | error e =>
      rw [hclamp] at h
      cases h
      exact ProbabilityBounds.clamp_error hclamp
    | ok x =>
      rw [hclamp] at h
      cases h

theorem candidate_error {p : Pair} {t : Option MatchType} (h : l.candidate p t = .error f) :
    f = l.boundsFault := by
  unfold candidate at h
  split at h
  · cases h
  · exact estimate_error h

theorem matchup_error {ours theirs : Pair} {t : Option MatchType}
    (h : l.matchup ours theirs t = .error f) : f = l.boundsFault := by
  unfold matchup at h
  split at h
  · exact candidate_error h
  · exact estimate_error h

theorem ownEstimate_error {p : Pair} (h : l.ownEstimate p = .error f) : f = l.boundsFault := by
  unfold ownEstimate at h
  split at h
  · cases h
  · exact candidate_error h

theorem bestResponse_error {ours : Pair} {opponents : List Pair}
    (h : l.bestResponse ours opponents = .error f) : f = l.boundsFault := by
  rw [bestResponse_eq] at h
  cases hcands : (opponents.filter (l.compatible ours ·)).mapM (l.matchup ours · none) with
  | error e =>
    rw [hcands] at h
    cases h
    obtain ⟨o, -, ho⟩ := mapM_eq_error hcands
    exact matchup_error ho
  | ok cands =>
    rw [hcands] at h
    cases h

/-- Our pairs' best responses to one scenario's opponents, in pair order; even odds where the
lookup faults. -/
def responseRow (l : StatsLookup) (pairs opponents : List Pair) : List WinEstimate :=
  pairs.map fun p => okOr .neutral (l.bestResponse p opponents)

/-- The reliabilities of our pairs' own estimates, in pair order. -/
def ownReliabilities (l : StatsLookup) (pairs : List Pair) : List Float :=
  pairs.map fun p => (okOr .neutral (l.ownEstimate p)).reliability

theorem mapM_bestResponse (l : StatsLookup) (pairs opponents : List Pair) :
    pairs.mapM (l.bestResponse · opponents) =
      if pairs.all fun p => (l.bestResponse p opponents).isOk then
        .ok (l.responseRow pairs opponents)
      else .error l.boundsFault :=
  mapM_eq_ite _ (fun _ _ h => bestResponse_error h) pairs

theorem mapM_ownReliability (l : StatsLookup) (pairs : List Pair) :
    pairs.mapM (fun p => WinEstimate.reliability <$> l.ownEstimate p) =
      if pairs.all fun p => (l.ownEstimate p).isOk then .ok (l.ownReliabilities pairs)
      else .error l.boundsFault := by
  rw [mapM_eq_ite WinEstimate.neutral.reliability
    (fun _ _ h => ownEstimate_error (map_eq_error h))]
  simp only [isOk_map, okOr_map]
  rfl

end StatsLookup

/-! ### The blind score as a formula of what the lookup finds -/

/-- Whether every game of a blind score is even odds: there are no pairs, or no scenario has an
opponent. -/
def blindNeutral (pairing : Pairing) (scenarios : List Scenario) : Bool :=
  pairing.pairs.isEmpty || scenarios.all (·.pairs.isEmpty)

/-- Whether the lookup finds every estimate a blind score needs: our pairs' own estimates and,
unless every game is even odds, their best responses to every scenario. -/
def StatsLookup.blindFinds (l : StatsLookup) (pairing : Pairing) (scenarios : List Scenario) :
    Bool :=
  pairing.pairs.all (fun p => (l.ownEstimate p).isOk) &&
    (blindNeutral pairing scenarios ||
      scenarios.all fun s => pairing.pairs.all fun p => (l.bestResponse p s.pairs).isOk)

/-- A scenario's wins: its row's win probabilities summed from `0.0`. -/
def rowWins (row : List WinEstimate) : Float :=
  row.foldl (fun w e => w + e.probability) 0.0

/-- The blind score from its data: whether every game is even odds, each scenario's weight with
its row of best responses, our pairs' own reliabilities and the number of games. -/
def blindScoreFrom (neutral : Bool) (rows : List (Float × List WinEstimate)) (own : List Float)
    (games : ℕ) (q : Float) : Score :=
  let neutralWins := neutralProbability * natToFloat games
  if neutral then ⟨neutralWins, neutralWins, 0.0, ⟨0.0, Sample.mean own, 0.0⟩, games⟩
  else
    let weights := normaliseWeights (rows.map (·.1))
    let wins := rows.map (rowWins ·.2)
    let all := (rows.map (·.2)).flatten
    let expected := Sample.weightedMean wins weights
    ⟨expected, Sample.quantile wins q, Sample.weightedStdev wins weights expected,
      ⟨Sample.mean (all.map (·.reliability)), Sample.mean own,
        Sample.mean (all.map (·.matchupReliability))⟩, games⟩

theorem blindScore_eq (pairing : Pairing) (scenarios : List Scenario) (l : StatsLookup)
    (q : Float) :
    blindScore pairing scenarios l q =
      if l.blindFinds pairing scenarios then
        .ok (blindScoreFrom (blindNeutral pairing scenarios)
          (scenarios.map fun s => (s.weight, l.responseRow pairing.pairs s.pairs))
          (l.ownReliabilities pairing.pairs) pairing.pairs.length q)
      else .error l.boundsFault := by
  unfold blindScore blindScoreOf StatsLookup.gameCoverage
  simp only [bind_pure_comp, List.mapM_map, Function.comp_def, Scenario.forScoring_get,
    StatsLookup.mapM_bestResponse, StatsLookup.mapM_ownReliability, mapM_ite, List.all_map,
    List.map_map, Scenario.forScoring_opponents, Scenario.forScoring_weight]
  unfold StatsLookup.blindFinds blindNeutral blindScoreFrom rowWins
  cases pairing.pairs.all fun p => (l.ownEstimate p).isOk with
  | false => rfl
  | true =>
    cases pairing.pairs.isEmpty || scenarios.all fun s => s.pairs.isEmpty with
    | true => rfl
    | false =>
      cases scenarios.all fun s => pairing.pairs.all fun p => (l.bestResponse p s.pairs).isOk with
      | false => rfl
      | true =>
        simp only [Bool.true_and, Bool.false_or, if_true, Bool.false_eq_true, if_false,
          Functor.map, Except.map, bind, Except.bind, List.map_map, Function.comp_def]

/-! ### Best responses to reordered opponents -/

theorem foldl_keepBest_perm {cands' cands : List WinEstimate} (h : cands'.Perm cands)
    (hnum : ∀ c ∈ cands, c.probability.isNaN = false) :
    SameUpToZeroSign ((cands'.foldl keepBest none).getD .neutral).probability
      ((cands.foldl keepBest none).getD .neutral).probability := by
  have hnum' : ∀ c ∈ cands', c.probability.isNaN = false := fun c hc => hnum c (h.subset hc)
  rcases foldl_keepBest cands' hnum' with ⟨rfl, -⟩ | ⟨e', he', hfirst'⟩ <;>
    rcases foldl_keepBest cands hnum with ⟨rfl, -⟩ | ⟨e, he, hfirst⟩
  · exact .inl rfl
  · exact absurd (h.symm.subset hfirst.mem) List.not_mem_nil
  · exact absurd (h.subset hfirst'.mem) List.not_mem_nil
  · rw [he', he]
    exact sameUpToZeroSign_of_le_of_le (hfirst.le (hnum e hfirst.mem) (h.subset hfirst'.mem))
      (hfirst'.le (hnum' e' hfirst'.mem) (h.symm.subset hfirst.mem))

namespace StatsLookup

variable {l : StatsLookup}

theorem bestResponse_eq_ite (l : StatsLookup) (ours : Pair) (opponents : List Pair) :
    l.bestResponse ours opponents =
      if (opponents.filter (l.compatible ours ·)).all fun o => (l.matchup ours o none).isOk then
        .ok ((((opponents.filter (l.compatible ours ·)).map fun o =>
          okOr .neutral (l.matchup ours o none)).foldl keepBest none).getD .neutral)
      else .error l.boundsFault := by
  rw [bestResponse_eq, mapM_eq_ite .neutral (fun _ _ h => matchup_error h)]
  split <;> rfl

theorem bestResponse_isOk_perm {ours : Pair} {opponents' opponents : List Pair}
    (h : opponents'.Perm opponents) :
    (l.bestResponse ours opponents').isOk = (l.bestResponse ours opponents).isOk := by
  rw [bestResponse_eq_ite, bestResponse_eq_ite, (h.filter _).all_eq]
  split <;> rfl

theorem bestResponse_probability_perm {ours : Pair} {opponents' opponents : List Pair}
    (h : opponents'.Perm opponents) :
    SameUpToZeroSign (okOr .neutral (l.bestResponse ours opponents')).probability
      (okOr .neutral (l.bestResponse ours opponents)).probability := by
  rw [bestResponse_eq_ite, bestResponse_eq_ite, (h.filter _).all_eq]
  split
  · rename_i hall
    refine foldl_keepBest_perm ((h.filter _).map _) fun c hc => ?_
    obtain ⟨o, ho, rfl⟩ := List.mem_map.mp hc
    obtain ⟨e, he⟩ := exists_eq_ok_of_isOk (List.all_eq_true.mp hall o ho)
    rw [he]
    exact matchup_isNaN he
  · exact .inl rfl

theorem responseRow_perm (pairs : List Pair) {opponents' opponents : List Pair}
    (h : opponents'.Perm opponents) :
    List.Forall₂ (fun e' e => SameUpToZeroSign e'.probability e.probability)
      (l.responseRow pairs opponents') (l.responseRow pairs opponents) := by
  unfold responseRow
  rw [List.forall₂_map_left_iff, List.forall₂_map_right_iff, List.forall₂_same]
  exact fun _ _ => bestResponse_probability_perm h

end StatsLookup

theorem rowWins_congr {row' row : List WinEstimate}
    (h : List.Forall₂ (fun e' e => SameUpToZeroSign e'.probability e.probability) row' row) :
    rowWins row' = rowWins row :=
  foldl_add_eq h (by rw [zero_unpack]; nofun)

/-! ### Sorting doubles -/

theorem Sample.sorted_perm {xs ys : List Float} (h : xs.Perm ys) :
    Sample.sorted xs = Sample.sorted ys := by
  have htrans : ∀ a b c : Float, decide (totalKey a ≤ totalKey b) = true →
      decide (totalKey b ≤ totalKey c) = true → decide (totalKey a ≤ totalKey c) = true := by
    intro a b c hab hbc
    simp only [decide_eq_true_eq] at *
    exact UInt64.le_trans hab hbc
  have htotal : ∀ a b : Float,
      (decide (totalKey a ≤ totalKey b) || decide (totalKey b ≤ totalKey a)) = true := by
    intro a b
    simpa using UInt64.le_total _ _
  unfold Sample.sorted
  -- two sorted lists with the same entries are equal, as no two doubles share a key
  refine List.Perm.eq_of_pairwise ?_ (List.pairwise_mergeSort htrans htotal xs)
    (List.pairwise_mergeSort htrans htotal ys)
    ((List.mergeSort_perm xs _).trans (h.trans (List.mergeSort_perm ys _).symm))
  intro a b _ _ hab hba
  exact totalKey_injective (UInt64.le_antisymm (of_decide_eq_true hab) (of_decide_eq_true hba))

theorem Sample.quantile_perm {xs ys : List Float} (h : xs.Perm ys) (q : Float) :
    Sample.quantile xs q = Sample.quantile ys q := by
  unfold Sample.quantile
  rw [h.isEmpty_eq, h.length_eq, Sample.sorted_perm h]

/-! ### Reordering -/

theorem map_eq_map_of_forall₂ {α β γ : Type} {R : α → β → Prop} {f : α → γ} {g : β → γ}
    (hfg : ∀ a b, R a b → f a = g b) {xs : List α} {ys : List β} (h : List.Forall₂ R xs ys) :
    xs.map f = ys.map g := by
  induction h with
  | nil => rfl
  | cons hab _ ih => rw [List.map_cons, List.map_cons, hfg _ _ hab, ih]

theorem all_eq_of_forall₂ {α β : Type} {R : α → β → Prop} {p : α → Bool} {q : β → Bool}
    (hpq : ∀ a b, R a b → p a = q b) {xs : List α} {ys : List β} (h : List.Forall₂ R xs ys) :
    xs.all p = ys.all q := by
  induction h with
  | nil => rfl
  | cons hab _ ih => rw [List.all_cons, List.all_cons, hpq _ _ hab, ih]

theorem blindScoreFrom_summary_congr {rows' rows : List (Float × List WinEstimate)}
    (hweights : rows'.map (·.1) = rows.map (·.1))
    (hwins : rows'.map (rowWins ·.2) = rows.map (rowWins ·.2)) (neutral : Bool) (own : List Float)
    (games : ℕ) (q : Float) :
    let s' := blindScoreFrom neutral rows' own games q
    let s := blindScoreFrom neutral rows own games q
    (s'.expectedWins, s'.floorWins, s'.volatility) =
      (s.expectedWins, s.floorWins, s.volatility) := by
  unfold blindScoreFrom
  split <;> simp only [hweights, hwins]

theorem blindScoreFrom_floorWins_perm {rows' rows : List (Float × List WinEstimate)}
    (h : rows'.Perm rows) (neutral : Bool) (own : List Float) (games : ℕ) (q : Float) :
    (blindScoreFrom neutral rows' own games q).floorWins =
      (blindScoreFrom neutral rows own games q).floorWins := by
  unfold blindScoreFrom
  split
  · rfl
  · exact Sample.quantile_perm (h.map _) q

theorem blindScore_opponent_perm (pairing : Pairing) {scenarios' scenarios : List Scenario}
    (h : List.Forall₂ (fun s' s => s'.weight = s.weight ∧ s'.pairs.Perm s.pairs)
      scenarios' scenarios) (l : StatsLookup) (q : Float) :
    (fun s => (s.expectedWins, s.floorWins, s.volatility)) <$> blindScore pairing scenarios' l q =
      (fun s => (s.expectedWins, s.floorWins, s.volatility)) <$>
        blindScore pairing scenarios l q := by
  have hneutral : blindNeutral pairing scenarios' = blindNeutral pairing scenarios := by
    unfold blindNeutral
    rw [all_eq_of_forall₂ (fun _ _ hs => hs.2.isEmpty_eq) h]
  have hfinds : l.blindFinds pairing scenarios' = l.blindFinds pairing scenarios := by
    unfold StatsLookup.blindFinds
    rw [hneutral, all_eq_of_forall₂ (fun _ _ hs => ?_) h]
    exact congrArg pairing.pairs.all (funext fun _ => StatsLookup.bestResponse_isOk_perm hs.2)
  rw [blindScore_eq, blindScore_eq, hfinds, hneutral]
  split
  · refine congrArg Except.ok (blindScoreFrom_summary_congr ?_ ?_ _ _ _ _)
    · rw [List.map_map, List.map_map]
      exact map_eq_map_of_forall₂ (fun _ _ hs => hs.1) h
    · rw [List.map_map, List.map_map]
      exact map_eq_map_of_forall₂
        (fun _ _ hs => rowWins_congr (StatsLookup.responseRow_perm _ hs.2)) h
  · rfl

theorem blindNeutral_pair_perm {pairing' pairing : Pairing}
    (h : pairing'.pairs.Perm pairing.pairs) (scenarios : List Scenario) :
    blindNeutral pairing' scenarios = blindNeutral pairing scenarios := by
  unfold blindNeutral
  rw [h.isEmpty_eq]

theorem blindFinds_pair_perm {pairing' pairing : Pairing} (h : pairing'.pairs.Perm pairing.pairs)
    {scenarios : List Scenario} {l : StatsLookup} :
    l.blindFinds pairing' scenarios = l.blindFinds pairing scenarios := by
  simp only [StatsLookup.blindFinds, blindNeutral_pair_perm h, h.all_eq]

theorem blindNeutral_scenario_perm (pairing : Pairing) {scenarios' scenarios : List Scenario}
    (h : scenarios'.Perm scenarios) :
    blindNeutral pairing scenarios' = blindNeutral pairing scenarios := by
  unfold blindNeutral
  rw [h.all_eq]

theorem blindFinds_scenario_perm (pairing : Pairing) {scenarios' scenarios : List Scenario}
    (h : scenarios'.Perm scenarios) {l : StatsLookup} :
    l.blindFinds pairing scenarios' = l.blindFinds pairing scenarios := by
  simp only [StatsLookup.blindFinds, blindNeutral_scenario_perm pairing h, h.all_eq]

/-- Reordering our pairs does not change whether, or with which fault, the blind score faults. -/
theorem blindScore_pair_perm {pairing' pairing : Pairing} (h : pairing'.pairs.Perm pairing.pairs)
    (scenarios : List Scenario) (l : StatsLookup) (q : Float) :
    (fun _ => ()) <$> blindScore pairing' scenarios l q =
      (fun _ => ()) <$> blindScore pairing scenarios l q := by
  rw [blindScore_eq, blindScore_eq, blindFinds_pair_perm h]
  split
  · simp only [Except.map_ok]
  · rfl

/-- Reordering the scenarios with their weights leaves the floor the same double. -/
theorem blindScore_scenario_perm (pairing : Pairing) {scenarios' scenarios : List Scenario}
    (h : scenarios'.Perm scenarios) (l : StatsLookup) (q : Float) :
    (·.floorWins) <$> blindScore pairing scenarios' l q =
      (·.floorWins) <$> blindScore pairing scenarios l q := by
  rw [blindScore_eq, blindScore_eq, blindFinds_scenario_perm pairing h,
    blindNeutral_scenario_perm pairing h]
  split
  · exact congrArg Except.ok (blindScoreFrom_floorWins_perm (h.map _) _ _ _ _)
  · rfl

end DoublesLineup
