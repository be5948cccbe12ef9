import DoublesLineup.Score.Blind
import DoublesLineup.Proofs.Estimate.Lookup
/-! # The blind scorer answers, and answers alike when prepared

With the blender's bounds in order every best response is found, so the blind score of any
pairing against any scenarios is (`blindScoreOf_ok`).

A scenario prepared for a roster carries best responses worked out in advance. Each is the one
`bestResponse` would work out (`Responses.get_prepare`), and the lookup with its own estimates
remembered answers as the lookup it came from. So scoring against prepared scenarios with that
lookup gives the score `blindScore` gives (`blindScoreOf_prepare`).
-/

namespace DoublesLineup

namespace StatsLookup

theorem bestResponse_ok {l : StatsLookup} (hl : l.blender.bounds.lower ≤ l.blender.bounds.upper)
    (ours : Pair) (opponents : List Pair) : ∃ e, l.bestResponse ours opponents = .ok e := by
  unfold bestResponse
  apply bind_ok_of_ok
  · apply foldlM_ok_of_forall
    intro best theirs _
    by_cases hc : l.compatible ours theirs = true
    · obtain ⟨e, he⟩ := matchup_ok hl ours theirs none
      cases best <;> simp [hc, he]
    · simp [hc]
  · exact fun _ _ => ⟨_, rfl⟩

theorem bestResponse_rememberOwn (l : StatsLookup) (pairs : List Pair) :
    (l.rememberOwn pairs).bestResponse = l.bestResponse := rfl

end StatsLookup

namespace Responses

/-- Every best response worked out in advance is the one `bestResponse` gives. -/
def Faithful (l : StatsLookup) (r : Responses) : Prop :=
  ∀ p e, r.known.get? p = some e → l.bestResponse p r.opponents = .ok e

theorem prepare_faithful (l : StatsLookup) (opponents pairs : List Pair) :
    (prepare l opponents pairs).Faithful l := by
  refine List.foldlRecOn (motive := fun m : Std.HashMap Pair WinEstimate =>
    ∀ p e, m.get? p = some e → l.bestResponse p opponents = .ok e) pairs _ (by simp) ?_
  intro m hm q _
  split
  · exact forall_get?_insert hm ‹_›
  · exact hm

theorem get_eq {l : StatsLookup} {r : Responses} (h : r.Faithful l) (p : Pair) :
    r.get l p = l.bestResponse p r.opponents := by
  unfold get
  split
  · rename_i e he
    exact (h p e he).symm
  · rfl

@[simp] theorem get_prepare (l : StatsLookup) (opponents pairs : List Pair) (p : Pair) :
    (prepare l opponents pairs).get l p = l.bestResponse p opponents :=
  get_eq (prepare_faithful l opponents pairs) p

@[simp] theorem get_empty (l : StatsLookup) (opponents : List Pair) (p : Pair) :
    (⟨opponents, {}⟩ : Responses).get l p = l.bestResponse p opponents :=
  get_eq (fun p e he => by simp at he) p

theorem get_ok {l : StatsLookup} (hl : l.blender.bounds.lower ≤ l.blender.bounds.upper)
    (r : Responses) (p : Pair) : ∃ e, r.get l p = .ok e := by
  unfold get
  split
  · exact ⟨_, rfl⟩
  · exact StatsLookup.bestResponse_ok hl p r.opponents

end Responses

@[simp] theorem Scenario.prepare_weight (l : StatsLookup) (pairs : List Pair) (s : Scenario) :
    (s.prepare l pairs).weight = s.weight := rfl

@[simp] theorem Scenario.prepare_opponents (l : StatsLookup) (pairs : List Pair) (s : Scenario) :
    (s.prepare l pairs).responses.opponents = s.pairs := rfl

@[simp] theorem Scenario.prepare_get (l : StatsLookup) (pairs : List Pair) (s : Scenario) :
    (s.prepare l pairs).responses.get l = (l.bestResponse · s.pairs) :=
  funext (Responses.get_prepare l s.pairs pairs)

@[simp] theorem Scenario.forScoring_weight (s : Scenario) : s.forScoring.weight = s.weight := rfl

@[simp] theorem Scenario.forScoring_opponents (s : Scenario) :
    s.forScoring.responses.opponents = s.pairs := rfl

@[simp] theorem Scenario.forScoring_get (l : StatsLookup) (s : Scenario) :
    s.forScoring.responses.get l = (l.bestResponse · s.pairs) :=
  funext (Responses.get_empty l s.pairs)

theorem blindScoreOf_ok {l : StatsLookup} (hl : l.blender.bounds.lower ≤ l.blender.bounds.upper)
    (pairing : Pairing) (scenarios : List ScoringScenario) (q : Float) :
    ∃ s, blindScoreOf l pairing scenarios q = .ok s := by
  obtain ⟨c, hc⟩ := l.gameCoverage_ok hl pairing
  obtain ⟨es, hes⟩ := mapM_ok_of_forall fun (s : ScoringScenario) _ =>
    mapM_ok_of_forall fun p (_ : p ∈ pairing.pairs) => s.responses.get_ok hl p
  unfold blindScoreOf
  simp only [hc, bind_eq_ok]
  split
  · exact ⟨_, c, rfl, rfl⟩
  · exact ⟨_, c, rfl, by rw [hes]; rfl⟩

theorem blindScoreOf_prepare {l : StatsLookup} (h : l.OwnFaithful) (pairs : List Pair)
    (pairing : Pairing) (scenarios : List Scenario) (q : Float) :
    blindScoreOf (l.rememberOwn pairs) pairing
        (scenarios.map (Scenario.prepare (l.rememberOwn pairs) pairs)) q =
      blindScore pairing scenarios l q := by
  unfold blindScore blindScoreOf
  simp only [StatsLookup.gameCoverage_rememberOwn h, List.map_map, Function.comp_def,
    List.all_map, List.mapM_map, Scenario.prepare_weight, Scenario.prepare_opponents,
    Scenario.prepare_get, Scenario.forScoring_weight, Scenario.forScoring_opponents,
    Scenario.forScoring_get, StatsLookup.bestResponse_rememberOwn]

end DoublesLineup
