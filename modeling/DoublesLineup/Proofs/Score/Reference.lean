import DoublesLineup.Proofs.Score.Blind
import DoublesLineup.Proofs.Numeric.Rank
import DoublesLineup.Proofs.Estimate.Index
/-! # The blind score from its definition

A pair's best response to a scenario is the estimate, against the first compatible opponent,
of the greatest win probability; even odds when no opponent is compatible (`IsBestResponse`).
It is well defined because win probabilities are numbers: a clamp into bounds gives a bound or
a finite value, and a value that is not finite becomes even odds. The scorer's fold keeps the
current best unless a later estimate is above it, so it finds the first of the greatest
(`bestResponse_spec`).

The blind score is then what its definition says of the matrix of best responses: one row
per scenario, one entry per pair. A scenario's wins sum its row from zero; the expected wins
weigh the scenarios' wins by the normalised weights; the floor is their quantile and the
volatility their weighted spread; coverage is the mean reliability over the whole matrix. With
no pairs, or no opponent in any scenario, every game is even odds.
-/

namespace DoublesLineup

open FloatOrder

/-! ### Win probabilities are numbers -/

theorem ProbabilityBounds.clamp_isNaN {b : ProbabilityBounds} {p x : Float}
    (h : b.clamp p = .ok x) : x.isNaN = false := by
  unfold ProbabilityBounds.clamp clampChecked at h
  split at h
  · rename_i hfinite
    split at h
    · rename_i hle
      cases h
      split_ifs
      · exact (isNaN_eq_false_of_le hle).1
      · exact (isNaN_eq_false_of_le hle).2
      · revert hfinite
        simp only [Float.isFinite, Float.Model.isFinite, Float.isNaN, Float.Model.isNaN]
        cases p.toModel.unpack <;>
          simp [Float.Model.UnpackedFloat.isFinite, Float.Model.UnpackedFloat.isNaN]
    · cases h
  · cases h
    decide

namespace StatsLookup

variable {l : StatsLookup} {e : WinEstimate}

theorem estimate_isNaN {winRate : Float} {pd : Option Float} {reliability : Float}
    {correlation : Option Float} {source : Source}
    (h : l.estimate winRate pd reliability correlation source = .ok e) :
    e.probability.isNaN = false := by
  simp only [estimate, bind_eq_ok, pure_eq_ok] at h
  obtain ⟨_, -, probability, hclamp, rfl⟩ := h
  exact ProbabilityBounds.clamp_isNaN hclamp

theorem candidate_isNaN {p : Pair} {t : Option MatchType} (h : l.candidate p t = .ok e) :
    e.probability.isNaN = false := by
  unfold candidate at h
  split at h
  · cases h
    decide
  · exact estimate_isNaN h

theorem matchup_isNaN {ours theirs : Pair} {t : Option MatchType}
    (h : l.matchup ours theirs t = .ok e) : e.probability.isNaN = false := by
  unfold matchup at h
  split at h
  · exact candidate_isNaN h
  · exact estimate_isNaN h

end StatsLookup

/-! ### The first of the greatest -/

/-- `e` is the first of `cands` with the greatest win probability: every estimate before it is
below it, and none after it is above it. -/
def IsFirstBest (cands : List WinEstimate) (e : WinEstimate) : Prop :=
  ∃ pre post, cands = pre ++ e :: post ∧ (∀ c ∈ pre, c.probability < e.probability) ∧
    ∀ c ∈ post, c.probability ≤ e.probability

/-- The best-response fold's step: the current best stays unless the new estimate is above
it. -/
def keepBest (best : Option WinEstimate) (e : WinEstimate) : Option WinEstimate :=
  match best with
  | some current => if current.probability ≥ e.probability then some current else some e
  | none => some e

@[simp] theorem keepBest_none : keepBest none = some := rfl

@[simp] theorem keepBest_some (current : WinEstimate) :
    keepBest (some current) = fun e =>
      if current.probability ≥ e.probability then some current else some e := rfl

theorem IsFirstBest.singleton (e : WinEstimate) : IsFirstBest [e] e :=
  ⟨[], [], rfl, by simp, by simp⟩

theorem IsFirstBest.mem {cands : List WinEstimate} {e : WinEstimate} (h : IsFirstBest cands e) :
    e ∈ cands := by
  obtain ⟨pre, post, rfl, -, -⟩ := h
  simp

theorem IsFirstBest.le {cands : List WinEstimate} {e c : WinEstimate} (h : IsFirstBest cands e)
    (he : e.probability.isNaN = false) (hc : c ∈ cands) : c.probability ≤ e.probability := by
  obtain ⟨pre, post, rfl, hpre, hpost⟩ := h
  rcases List.mem_append.mp hc with hc | hc
  · exact le_of_lt (hpre c hc)
  · rcases List.mem_cons.mp hc with rfl | hc
    · exact le_refl_of_isNaN he
    · exact hpost c hc

theorem IsFirstBest.keepBest {cands : List WinEstimate} {b x : WinEstimate}
    (h : IsFirstBest cands b) (hb : b.probability.isNaN = false)
    (hx : x.probability.isNaN = false) :
    ∃ b', keepBest (some b) x = some b' ∧ IsFirstBest (cands ++ [x]) b' := by
  obtain ⟨pre, post, rfl, hpre, hpost⟩ := h
  by_cases hge : b.probability ≥ x.probability
  · refine ⟨b, by simp [DoublesLineup.keepBest, hge], pre, post ++ [x], by simp, hpre, ?_⟩
    intro c hc
    rcases List.mem_append.mp hc with hc | hc
    · exact hpost c hc
    · rw [List.mem_singleton.mp hc]
      exact hge
  · -- the new estimate is above the best, hence above everything before it
    have hlt : b.probability < x.probability := lt_of_not_le hx hb hge
    refine ⟨x, by simp [DoublesLineup.keepBest, hge], pre ++ b :: post, [], by simp, ?_, by simp⟩
    intro c hc
    rcases List.mem_append.mp hc with hc | hc
    · exact lt_trans (hpre c hc) hlt
    · rcases List.mem_cons.mp hc with rfl | hc
      · exact hlt
      · exact lt_of_le_of_lt (hpost c hc) hlt

theorem foldl_keepBest (cands : List WinEstimate)
    (hnum : ∀ c ∈ cands, c.probability.isNaN = false) :
    cands = [] ∧ cands.foldl keepBest none = none ∨
      ∃ e, cands.foldl keepBest none = some e ∧ IsFirstBest cands e := by
  induction cands using List.reverseRecOn with
  | nil => exact .inl ⟨rfl, rfl⟩
  | append_singleton cands x ih =>
    have hx := hnum x (by simp)
    rw [List.foldl_append, List.foldl_cons, List.foldl_nil]
    rcases ih fun c hc => hnum c (by simp [hc]) with ⟨rfl, hnone⟩ | ⟨b, hb, hfirst⟩
    · exact .inr ⟨x, by rw [hnone]; rfl, IsFirstBest.singleton x⟩
    · rw [hb]
      obtain ⟨b', hb', hfirst'⟩ := hfirst.keepBest (hnum b (by simp [hfirst.mem])) hx
      exact .inr ⟨b', hb', hfirst'⟩

theorem IsFirstBest.unique {cands : List WinEstimate} {e e' : WinEstimate}
    (h : IsFirstBest cands e) (h' : IsFirstBest cands e') : e = e' := by
  obtain ⟨pre, post, rfl, hpre, hpost⟩ := h
  obtain ⟨pre', post', heq, hpre', hpost'⟩ := h'
  rcases List.append_eq_append_iff.mp heq with ⟨mid, rfl, hmid⟩ | ⟨mid, rfl, hmid⟩
  · cases mid with
    | nil => exact (List.cons.inj hmid).1
    | cons x mid =>
      obtain ⟨rfl, rfl⟩ := List.cons.inj hmid
      have hlt := hpre' e (by simp)
      have hle := hpost e' (by simp)
      exact absurd (lt_of_lt_of_le hlt hle) (lt_irrefl _)
  · cases mid with
    | nil => exact (List.cons.inj hmid).1.symm
    | cons x mid =>
      obtain ⟨rfl, rfl⟩ := List.cons.inj hmid
      have hlt := hpre e' (by simp)
      have hle := hpost' e (by simp)
      exact absurd (lt_of_lt_of_le hlt hle) (lt_irrefl _)

/-! ### Best responses -/

/-- `e` is our pair's best response to `opponents`: of the estimates against the compatible
opponents, in their order, the first of the greatest win probability; even odds when no
opponent is compatible. -/
def IsBestResponse (l : StatsLookup) (ours : Pair) (opponents : List Pair) (e : WinEstimate) :
    Prop :=
  ∃ cands, List.Forall₂ (fun o c => l.matchup ours o none = .ok c)
      (opponents.filter (l.compatible ours ·)) cands ∧
    (cands = [] ∧ e = .neutral ∨ IsFirstBest cands e)

theorem IsBestResponse.unique {l : StatsLookup} {ours : Pair} {opponents : List Pair}
    {e e' : WinEstimate} (h : IsBestResponse l ours opponents e)
    (h' : IsBestResponse l ours opponents e') : e = e' := by
  obtain ⟨cands, hcands, hbest⟩ := h
  obtain ⟨cands', hcands', hbest'⟩ := h'
  have hsame : cands = cands' := by
    have h₁ := mapM_eq_ok.mpr hcands
    rw [mapM_eq_ok.mpr hcands'] at h₁
    exact (Except.ok.inj h₁).symm
  subst hsame
  rcases hbest with ⟨rfl, rfl⟩ | hfirst <;> rcases hbest' with ⟨hnil, rfl⟩ | hfirst'
  · rfl
  · exact absurd hfirst'.mem (by simp)
  · exact absurd hfirst.mem (by simp [hnil])
  · exact hfirst.unique hfirst'


namespace StatsLookup

/-- The best response folds `keepBest` over the estimates against the compatible opponents. -/
theorem bestResponse_eq (l : StatsLookup) (ours : Pair) (opponents : List Pair) :
    l.bestResponse ours opponents =
      (fun cands => (cands.foldl keepBest none).getD .neutral) <$>
        (opponents.filter (l.compatible ours ·)).mapM (l.matchup ours · none) := by
  unfold bestResponse
  rw [foldlM_eq_map_mapM_filter (p := (l.compatible ours ·)) (g := (l.matchup ours · none))
    (k := keepBest) ?step]
  · cases (opponents.filter (l.compatible ours ·)).mapM (l.matchup ours · none) <;> rfl
  · intro best theirs
    by_cases hc : l.compatible ours theirs = true
    · cases best <;> simp [hc]
    · simp [hc]

end StatsLookup

namespace StatsLookup

variable {l : StatsLookup}

theorem bestResponse_spec {ours : Pair} {opponents : List Pair} {e : WinEstimate}
    (h : l.bestResponse ours opponents = .ok e) : IsBestResponse l ours opponents e := by
  rw [bestResponse_eq, map_eq_ok] at h
  obtain ⟨cands, hcands, rfl⟩ := h
  refine ⟨cands, mapM_eq_ok.mp hcands, ?_⟩
  have hnum : ∀ c ∈ cands, c.probability.isNaN = false := fun c hc => by
    obtain ⟨o, -, ho⟩ := mem_of_mapM_eq_ok hcands hc
    exact matchup_isNaN ho
  rcases foldl_keepBest cands hnum with ⟨rfl, -⟩ | ⟨e, he, hfirst⟩
  · exact .inl ⟨rfl, rfl⟩
  · rw [he]
    exact .inr hfirst

end StatsLookup

/-! ### The blind score -/

/-- The blind score of a pairing against weighted scenarios, with the blender's bounds in order,
is what its definition says. There is one matrix of best responses, a row per scenario and an
entry per pair, and our pairing's own coverage is found. With no pairs, or no opponent in any
scenario, the score is even odds in every game. Otherwise a scenario's wins are its row's win
probabilities summed from zero in pair order; the expected wins weigh them by the normalised
scenario weights, the floor is their nearest-rank quantile and the volatility their weighted
spread around the expected wins; the overall and head-to-head coverage are the mean
reliabilities over the whole matrix, and there is one game per pair. -/
theorem blindScore_eq_reference {l : StatsLookup}
    (hl : l.blender.bounds.lower ≤ l.blender.bounds.upper) (pairing : Pairing)
    (scenarios : List Scenario) (q : Float) :
    ∃ (best : List (List WinEstimate)) (game : Float),
      List.Forall₂ (fun s row => List.Forall₂ (fun p e => IsBestResponse l p s.pairs e)
        pairing.pairs row) scenarios best ∧
      l.gameCoverage pairing = .ok game ∧
      ((pairing.pairs = [] ∨ ∀ s ∈ scenarios, s.pairs = []) →
        blindScore pairing scenarios l q =
          .ok ⟨neutralProbability * natToFloat pairing.pairs.length,
            neutralProbability * natToFloat pairing.pairs.length, 0.0, ⟨0.0, game, 0.0⟩,
            pairing.pairs.length⟩) ∧
      (pairing.pairs ≠ [] → (∃ s ∈ scenarios, s.pairs ≠ []) →
        let wins := best.map fun row => row.foldl (fun w e => w + e.probability) 0.0
        let weights := normaliseWeights (scenarios.map (·.weight))
        let expected := Sample.weightedMean wins weights
        blindScore pairing scenarios l q =
          .ok ⟨expected, Sample.quantile wins q, Sample.weightedStdev wins weights expected,
            ⟨Sample.mean (best.flatten.map (·.reliability)), game,
              Sample.mean (best.flatten.map (·.matchupReliability))⟩, pairing.pairs.length⟩) := by
  obtain ⟨game, hgame⟩ := l.gameCoverage_ok hl pairing
  have hfound : ∃ best, scenarios.mapM (fun s => pairing.pairs.mapM (l.bestResponse · s.pairs)) =
      .ok best :=
    mapM_ok_of_forall fun s _ => mapM_ok_of_forall fun p _ => l.bestResponse_ok hl p s.pairs
  obtain ⟨best, hbest⟩ := hfound
  have hrows : List.Forall₂ (fun s row => List.Forall₂ (fun p e => IsBestResponse l p s.pairs e)
      pairing.pairs row) scenarios best := by
    refine List.Forall₂.imp (fun s row hrow => ?_) (mapM_eq_ok.mp hbest)
    have hrow : pairing.pairs.mapM (l.bestResponse · s.pairs) = .ok row := hrow
    exact List.Forall₂.imp (fun p e he => StatsLookup.bestResponse_spec he) (mapM_eq_ok.mp hrow)
  refine ⟨best, game, hrows, hgame, fun hneutral => ?_, fun hpairs hopponents => ?_⟩
  · have hcond : (pairing.pairs.isEmpty ||
        (scenarios.map Scenario.forScoring).all (·.responses.opponents.isEmpty)) = true := by
      rcases hneutral with hnil | hall
      · simp [hnil]
      · simp only [List.all_map, Function.comp_def, Scenario.forScoring_opponents,
          Bool.or_eq_true, List.isEmpty_iff, List.all_eq_true]
        exact .inr fun s hs => by simp [hall s hs]
    unfold blindScore blindScoreOf
    simp only [hgame, ok_bind, hcond, if_true]
    rfl
  · have hcond : (pairing.pairs.isEmpty ||
        (scenarios.map Scenario.forScoring).all (·.responses.opponents.isEmpty)) = false := by
      obtain ⟨s, hs, hsne⟩ := hopponents
      simp only [List.all_map, Function.comp_def, Scenario.forScoring_opponents,
        Bool.or_eq_false_iff, List.isEmpty_eq_false_iff, List.all_eq_false]
      exact ⟨hpairs, s, hs, by simpa using hsne⟩
    unfold blindScore blindScoreOf
    simp only [hgame, ok_bind, hcond, Bool.false_eq_true, if_false, List.mapM_map,
      Function.comp_def, Scenario.forScoring_get, Scenario.forScoring_weight, List.map_map]
    rw [hbest]
    rfl

theorem blindScore_eq_reference_of_one_scenario :
    let l := StatsLookup.ofBundle {} .scoring
    let pairing : Pairing := ⟨[⟨"a", "b"⟩]⟩
    let scenarios : List Scenario := [⟨1.0, [⟨"c", "d"⟩]⟩]
    l.blender.bounds.lower ≤ l.blender.bounds.upper ∧
      ∃ score, blindScore pairing scenarios l 0.2 = .ok score ∧ score.games = 1 := by
  intro l pairing scenarios
  have hl : l.blender.bounds.lower ≤ l.blender.bounds.upper := by decide
  obtain ⟨best, game, -, -, -, hscore⟩ := blindScore_eq_reference hl pairing scenarios 0.2
  exact ⟨hl, _, hscore (by simp [pairing]) ⟨_, List.mem_singleton_self _, by simp⟩, rfl⟩

/-- With its bounds out of order a blender cannot clamp, so a pair with a statistic of its own
leaves its coverage, and with it the blind score, to a fault, even against no scenario. -/
theorem blindScore_faults_on_reversed_bounds :
    let stat : CandidateStat := ⟨"a", "b", .mixed, 0.6, none, 0.0, none⟩
    let l := StatsLookup.ofBundle { candidatePairs := [stat] } ⟨⟨0.9, 0.1⟩, 0.5⟩
    ∀ score, blindScore ⟨[⟨"a", "b"⟩]⟩ [] l 0.2 ≠ .ok score := by
  intro stat l score hscore
  have hordered : Pair.Ordered ⟨"a", "b"⟩ := show "a" < "b" by decide
  have hown : (l.ownEstimate ⟨"a", "b"⟩).isOk = false := by
    unfold StatsLookup.ownEstimate
    rw [show l.own = {} from rfl, Std.HashMap.get?_eq_getElem?, Std.HashMap.getElem?_empty]
    simp only [StatsLookup.candidate, StatsLookup.candidateStat, StatsLookup.composition, l,
      StatsLookup.gender_ofBundle, StatsLookup.candidates_get?_ofBundle _ _ hordered]
    decide
  unfold blindScore blindScoreOf StatsLookup.gameCoverage at hscore
  simp only [List.mapM_cons, bind_eq_ok] at hscore
  obtain ⟨_, ⟨_, ⟨_, ⟨e, he, -⟩, -⟩, -⟩, -⟩ := hscore
  rw [he] at hown
  cases hown

end DoublesLineup
