import DoublesLineup.Proofs.Optimizer.Exhaustive
import DoublesLineup.Proofs.Search.Climb
/-! # Every request is answered

Once its configuration is validated, the optimiser answers every request over every bundle:
rosters that repeat players, are odd, empty or too large to enumerate, opponent rounds of any
shape, and doubles that are not finite anywhere (`respond_never_faults`). It rests on one
assumption, about the generator the search draws from: its draws stay below their limit. Each
place that could fault is guarded before it is reached: pairs are made only of two players of
the deduplicated roster, the blender's bounds are ordered, the greedy schedule assigns only slots
of the match, the search swaps partners only between two pairs of its pairing, and its shuffle
swaps only positions of the roster.

Two readings have no fault to raise and read a default past the end instead: the quantile of a
sample, and the match type of a slot. Neither reads past the end. The quantile of a sample is
one of its values (`Sample.quantile_mem`), and every slot of the match has the match type its
round's template gives at that slot (`MatchView.ofRounds_slot`).
-/

namespace DoublesLineup

theorem Sample.quantile_mem {xs : List Float} (h : xs ≠ []) (q : Float) :
    Sample.quantile xs q ∈ xs := by
  have hsorted : (Sample.sorted xs).Perm xs := List.mergeSort_perm _ _
  have hpos : 0 < xs.length := List.length_pos_iff.mpr h
  have hempty : xs.isEmpty = false := List.isEmpty_eq_false_iff.mpr h
  unfold Sample.quantile
  rw [if_neg (by rw [hempty]; decide)]
  dsimp only
  rw [List.getD_eq_getElem?_getD, List.getElem?_eq_getElem (by rw [hsorted.length_eq]; omega),
    Option.getD_some]
  exact hsorted.subset (List.getElem_mem _)

theorem length_roundTemplate (round : Nat) : (roundTemplate round).length = slotCount := by
  unfold roundTemplate
  split <;> rfl

theorem getElem?_roundTemplate {round slot : Nat} (h : slot < slotCount) :
    (roundTemplate round)[slot]? = some (slotType round slot) := by
  rw [slotType, List.getD_eq_getElem?_getD,
    List.getElem?_eq_getElem (by rw [length_roundTemplate]; exact h), Option.getD_some]

theorem MatchView.ofRounds_slot (rounds : List OpponentRound) {round slot : Nat}
    {slots : List SlotView} {v : SlotView} (hround : (ofRounds rounds).rounds[round]? = some slots)
    (hslot : slots[slot]? = some v) :
    round < roundCount ∧ slot < slotCount ∧ (roundTemplate round)[slot]? = some v.matchType := by
  simp only [ofRounds, List.getElem?_map, Option.map_eq_some_iff] at hround
  obtain ⟨r, hr, rfl⟩ := hround
  obtain ⟨hround, rfl⟩ := List.getElem?_eq_some_iff.mp hr
  simp only [List.getElem?_map, Option.map_eq_some_iff] at hslot
  obtain ⟨s, hs, rfl⟩ := hslot
  obtain ⟨hslot, rfl⟩ := List.getElem?_eq_some_iff.mp hs
  simp only [List.length_range, List.getElem_range] at hround hslot ⊢
  exact ⟨hround, hslot, getElem?_roundTemplate hslot⟩

namespace Optimizer

theorem evaluate_of_search {η γ : Type} (H : Hasher η) (G : Generator γ) {o : Optimizer}
    {request : Request} (bundle : FeatureBundle)
    (hstrat : o.strategyFor (distinctPlayers request.availablePlayerIds).length = .search) :
    ∃ count notices, ∀ r, searchPairings H G (distinctPlayers request.availablePlayerIds)
        o.config.search request.objective (o.scorePairing request bundle) = .ok r →
      o.evaluate H G request bundle = .ok ⟨r.1, .search, count, some r.2, notices⟩ := by
  unfold evaluate
  cases hmode : request.mode
  · simp only [hstrat]
    rw [scoreWith_prepare_blind o bundle hmode]
    exact ⟨_, _, fun r hr => by rw [hr]; rfl⟩
  · simp only [hstrat]
    rw [scoreWith_prepare_known o bundle hmode]
    exact ⟨_, _, fun r hr => by rw [hr]; rfl⟩

theorem evaluate_ok {η γ : Type} (H : Hasher η) {G : Generator γ} (hG : G.DrawsBelow)
    {c : Config} {o : Optimizer} (ho : ofConfig c = .ok o) (request : Request)
    (bundle : FeatureBundle) : ∃ e, o.evaluate H G request bundle = .ok e := by
  have hscore := scorePairing_ok ho request bundle
  have hnodup := nodup_distinctPlayers request.availablePlayerIds
  cases hstrat : o.strategyFor (distinctPlayers request.availablePlayerIds).length with
  | exhaustive =>
    obtain ⟨count, notices, he⟩ := evaluate_of_exhaustive H G bundle hstrat
    obtain ⟨pairings, hpairings, -⟩ := enumerate_spec hnodup
    obtain ⟨scored, hscored⟩ := mapM_ok_of_forall fun p (_ : p ∈ pairings) =>
      (hscore p).imp fun _ h => h.1
    exact ⟨_, by rw [he, hpairings, ok_bind, hscored, ok_bind]; rfl⟩
  | search =>
    obtain ⟨count, notices, he⟩ := evaluate_of_search H G bundle hstrat
    obtain ⟨r, hr⟩ := searchPairings_ok H request.objective hG hnodup hscore o.config.search
    exact ⟨_, he r hr⟩

theorem respond_never_faults {η γ : Type} (H : Hasher η) {G : Generator γ} (hG : G.DrawsBelow)
    {c : Config} {o : Optimizer} (ho : ofConfig c = .ok o) (request : Request)
    (bundle : FeatureBundle) :
    (∃ e, o.evaluate H G request bundle = .ok e) ∧
      ∀ requestId generatedAt, ∃ r, o.respond H G request bundle requestId generatedAt = .ok r := by
  obtain ⟨e, he⟩ := evaluate_ok H hG ho request bundle
  refine ⟨⟨e, he⟩, fun requestId generatedAt => ?_⟩
  obtain ⟨r, hr, -⟩ := respond_of_evaluate he requestId generatedAt
  exact ⟨r, hr⟩

end Optimizer

/-- A known-opponent request with a repeated player, an odd roster, opponent rounds of the
wrong shape and a quantile that is not a number. -/
theorem respond_never_faults_of_malformed_request :
    Wyrand.generator.DrawsBelow ∧ Optimizer.ofConfig {} = .ok ⟨{}, Config.scoringBlender {}⟩ ∧
      (∃ e, Optimizer.evaluate ⟨{}, Config.scoringBlender {}⟩ Sha256.hasher Wyrand.generator
          { (default : Request) with
            availablePlayerIds := ["a", "b", "a", "c"], mode := .knownOpponent,
            downsideQuantile := 0.0 / 0.0, opponentRounds := some [[⟨.male, "x", "x"⟩]] }
          default = .ok e) ∧
      ∀ requestId generatedAt, ∃ r, Optimizer.respond ⟨{}, Config.scoringBlender {}⟩
          Sha256.hasher Wyrand.generator
          { (default : Request) with
            availablePlayerIds := ["a", "b", "a", "c"], mode := .knownOpponent,
            downsideQuantile := 0.0 / 0.0, opponentRounds := some [[⟨.male, "x", "x"⟩]] }
          default requestId generatedAt = .ok r :=
  have ho : Optimizer.ofConfig {} = .ok ⟨{}, Config.scoringBlender {}⟩ := rfl
  ⟨Wyrand.drawsBelow, ho, Optimizer.respond_never_faults Sha256.hasher Wyrand.drawsBelow ho _ _⟩

end DoublesLineup
