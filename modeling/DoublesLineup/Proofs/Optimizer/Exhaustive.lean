import DoublesLineup.Optimizer.Respond
import DoublesLineup.Proofs.Roster.Enumerate
import DoublesLineup.Proofs.Score.Order
import DoublesLineup.Proofs.Score.Blind
import DoublesLineup.Proofs.Schedule.Known
import DoublesLineup.Proofs.Estimate.Bounded
/-! # Exhaustive evaluation ranks every pairing

For a roster small enough to enumerate, `Optimizer.evaluate` answers with one scored entry for
each perfect matching of the roster's distinct players, each scored as the request's mode
scores a pairing afresh (`Optimizer.scorePairing`), ranked so that no entry is followed by a
better one; `respond` recommends the leading entries in that order, ranked from 1
(`evaluate_ranks_every_pairing`).

The roster is deduplicated keeping first occurrences (`distinctPlayers_eq_eraseDups`). A
validated configuration has ordered scoring bounds, so no estimate faults, and the lookup a
request is scored with has no own estimates worked out, so what the optimiser works out in
advance changes no score (`scoreWith_prepare`).
-/

namespace DoublesLineup

theorem SearchConfig.pos_of_validate {c : SearchConfig} {u : Unit} (h : c.validate = .ok u) :
    0 < c.restarts ∧ 0 < c.maxPasses := by
  unfold validate at h
  split at h
  · cases h
  · split at h
    · cases h
    · omega

theorem Config.valid_of_validate {c : Config} {u : Unit} (h : c.validate = .ok u) :
    c.scoringBounds.valid = true ∧ 0 < c.search.restarts ∧ 0 < c.search.maxPasses := by
  unfold validate at h
  obtain ⟨_, hscoring, h⟩ := bind_eq_ok.mp h
  obtain ⟨_, -, h⟩ := bind_eq_ok.mp h
  have hsearch : ∃ v, c.search.validate = .ok v := by
    by_cases hw : (!(decide (0.0 ≤ c.maxSecondaryWeight) &&
        decide (c.maxSecondaryWeight ≤ 0.5))) = true
    · simp [hw, throw_ne_ok] at h
    by_cases he : (!(decide (2 ≤ c.maxExhaustivePlayers) &&
        decide (c.maxExhaustivePlayers ≤ exhaustivePlayersCeiling))) = true
    · simp [hw, he, throw_ne_ok] at h
    simp only [hw, he, Bool.false_eq_true, if_false] at h
    obtain ⟨v, hv, -⟩ := bind_eq_ok.mp h
    exact ⟨v, hv⟩
  obtain ⟨v, hv⟩ := hsearch
  exact ⟨ProbabilityBounds.valid_of_validate hscoring, SearchConfig.pos_of_validate hv⟩

namespace Optimizer

theorem ofConfig_eq_ok {c : Config} {o : Optimizer} (ho : ofConfig c = .ok o) :
    c.validate = .ok () ∧ o = ⟨c, c.scoringBlender⟩ := by
  unfold ofConfig at ho
  rw [bind_eq_ok] at ho
  obtain ⟨u, hv, ho⟩ := ho
  rw [pure_eq_ok] at ho
  exact ⟨hv, ho.symm⟩

theorem bounds_ordered {c : Config} {o : Optimizer} (ho : ofConfig c = .ok o) :
    o.blender.bounds.lower ≤ o.blender.bounds.upper := by
  obtain ⟨hv, rfl⟩ := ofConfig_eq_ok ho
  exact ProbabilityBounds.lower_le_upper (Config.valid_of_validate hv).1

theorem lookupFor_own (o : Optimizer) (request : Request) (bundle : FeatureBundle) :
    (o.lookupFor request bundle).own = {} := by
  unfold lookupFor
  split <;> rfl

theorem lookupFor_blender (o : Optimizer) (request : Request) (bundle : FeatureBundle) :
    (o.lookupFor request bundle).blender = o.blender := by
  unfold lookupFor
  split <;> rfl

end Optimizer

theorem foldl_keepFirst {f : Std.HashSet PlayerId × List PlayerId → PlayerId →
      Std.HashSet PlayerId × List PlayerId}
    (hf : ∀ seen kept p, f (seen, kept) p =
      if seen.contains p then (seen, kept) else (seen.insert p, p :: kept))
    (xs : List PlayerId) :
    ∀ (pre : List PlayerId) (seen : Std.HashSet PlayerId) (kept : List PlayerId),
      (∀ p, seen.contains p = true ↔ p ∈ pre) → kept.reverse = pre.eraseDups → kept.Nodup →
      (xs.foldl f (seen, kept)).2.reverse = (pre ++ xs).eraseDups ∧
        (xs.foldl f (seen, kept)).2.Nodup := by
  induction xs with
  | nil => exact fun pre _ kept _ hkept hnodup => ⟨by simpa using hkept, hnodup⟩
  | cons x xs ih =>
    intro pre seen kept hseen hkept hnodup
    have happend : pre ++ x :: xs = (pre ++ [x]) ++ xs := by simp
    rw [List.foldl_cons, hf, happend]
    by_cases hx : seen.contains x = true
    · rw [if_pos hx]
      have hmem : x ∈ pre := (hseen x).mp hx
      refine ih (pre ++ [x]) seen kept (fun p => ?_) ?_ hnodup
      · rw [hseen p, List.mem_append, List.mem_singleton]
        constructor
        · exact Or.inl
        · rintro (h | rfl)
          · exact h
          · exact hmem
      · rw [hkept, List.eraseDups_append]
        simp [List.removeAll, hmem]
    · rw [if_neg hx]
      have hnot : x ∉ pre := fun h => hx ((hseen x).mpr h)
      refine ih (pre ++ [x]) (seen.insert x) (x :: kept) (fun p => ?_) ?_ ?_
      · rw [Std.HashSet.contains_insert, Bool.or_eq_true, beq_iff_eq, hseen p, List.mem_append,
          List.mem_singleton]
        constructor
        · rintro (rfl | h)
          · exact Or.inr rfl
          · exact Or.inl h
        · rintro (h | rfl)
          · exact Or.inr h
          · exact Or.inl rfl
      · rw [List.reverse_cons, hkept, List.eraseDups_append]
        simp [List.removeAll, hnot, List.eraseDups_cons]
      · refine List.nodup_cons.mpr ⟨fun h => hnot ?_, hnodup⟩
        rw [← List.mem_reverse, hkept, List.mem_eraseDups] at h
        exact h

theorem distinctPlayers_eq_eraseDups (players : List PlayerId) :
    distinctPlayers players = players.eraseDups := by
  unfold distinctPlayers
  simpa using (foldl_keepFirst (fun _ _ _ => rfl) players [] ∅ [] (by simp) rfl
    List.nodup_nil).1

theorem nodup_distinctPlayers (players : List PlayerId) : (distinctPlayers players).Nodup := by
  unfold distinctPlayers
  exact List.nodup_reverse.mpr
    (foldl_keepFirst (fun _ _ _ => rfl) players [] ∅ [] (by simp) rfl List.nodup_nil).2

namespace Optimizer

/-- A pairing's score as the request's mode gives it, with nothing worked out in advance: its
blind score against the bundle's scenarios, or its score against the opponent's rounds. -/
def scorePairing (o : Optimizer) (request : Request) (bundle : FeatureBundle)
    (pairing : Pairing) : Except Fault ScoredPairing :=
  match request.mode with
  | .blind => do
    let score ← blindScore pairing (bundle.scenarios request.scenarioLimit)
      (o.lookupFor request bundle) request.downsideQuantile
    pure ⟨pairing, score, none⟩
  | .knownOpponent => do
    let (score, schedule) ← knownScore pairing (request.opponentRounds.getD [])
      (o.lookupFor request bundle) request.downsideQuantile o.config.knownAggregation
    pure ⟨pairing, score, some schedule⟩

theorem scorePairing_ok {c : Config} {o : Optimizer} (ho : ofConfig c = .ok o) (request : Request)
    (bundle : FeatureBundle) (pairing : Pairing) :
    ∃ s, o.scorePairing request bundle pairing = .ok s ∧ s.pairing = pairing := by
  have hl : (o.lookupFor request bundle).blender.bounds.lower ≤
      (o.lookupFor request bundle).blender.bounds.upper := by
    rw [lookupFor_blender]
    exact bounds_ordered ho
  unfold scorePairing
  split
  · obtain ⟨score, hscore⟩ := blindScoreOf_ok hl pairing
      ((bundle.scenarios request.scenarioLimit).map Scenario.forScoring) request.downsideQuantile
    exact ⟨_, by rw [blindScore, hscore]; rfl, rfl⟩
  · obtain ⟨r, hr⟩ := knownScoreOf_ok hl pairing
      (MatchView.ofRounds (request.opponentRounds.getD [])) request.downsideQuantile
      o.config.knownAggregation
    exact ⟨_, by rw [knownScore, hr]; rfl, rfl⟩

theorem scorePairing_pairing {c : Config} {o : Optimizer} (ho : ofConfig c = .ok o)
    {request : Request} {bundle : FeatureBundle} {pairing : Pairing} {s : ScoredPairing}
    (h : o.scorePairing request bundle pairing = .ok s) : s.pairing = pairing := by
  obtain ⟨s', hs', hpairing⟩ := scorePairing_ok ho request bundle pairing
  rw [hs'] at h
  cases h
  exact hpairing

theorem scoreWith_prepare_blind (o : Optimizer) {request : Request} (bundle : FeatureBundle)
    (hmode : request.mode = .blind) (pairs : List Pair) :
    o.scoreWith request (prepare request (bundle.scenarios request.scenarioLimit)
      (o.lookupFor request bundle) pairs) = o.scorePairing request bundle := by
  have hown := StatsLookup.ownFaithful_of_own_eq_empty (lookupFor_own o request bundle)
  funext pairing
  simp only [prepare, scorePairing, hmode, scoreWith]
  rw [blindScoreOf_prepare hown]

theorem scoreWith_prepare_known (o : Optimizer) {request : Request} (bundle : FeatureBundle)
    (hmode : request.mode = .knownOpponent) (scenarios : List Scenario) (pairs : List Pair) :
    o.scoreWith request (prepare request scenarios (o.lookupFor request bundle) pairs) =
      o.scorePairing request bundle := by
  have hown := StatsLookup.ownFaithful_of_own_eq_empty (lookupFor_own o request bundle)
  funext pairing
  simp only [prepare, scorePairing, hmode, scoreWith]
  rw [knownScoreOf_prepare hown]

/-- An exhaustive evaluation scores every pairing of the distinct players afresh and ranks
them. -/
theorem evaluate_of_exhaustive {η γ : Type} (H : Hasher η) (G : Generator γ) {o : Optimizer}
    {request : Request} (bundle : FeatureBundle)
    (hstrat : o.strategyFor (distinctPlayers request.availablePlayerIds).length = .exhaustive) :
    ∃ count notices, o.evaluate H G request bundle = (do
      let pairings ← enumerate (distinctPlayers request.availablePlayerIds)
      let scored ← pairings.mapM (o.scorePairing request bundle)
      pure ⟨rankBy (·.score) request.objective scored, .exhaustive, count, none, notices⟩) := by
  unfold evaluate
  cases hmode : request.mode
  · simp only [hstrat]
    rw [scoreWith_prepare_blind o bundle hmode]
    exact ⟨_, _, rfl⟩
  · simp only [hstrat]
    rw [scoreWith_prepare_known o bundle hmode]
    exact ⟨_, _, rfl⟩

theorem respond_of_evaluate {η γ : Type} {H : Hasher η} {G : Generator γ} {o : Optimizer}
    {request : Request} {bundle : FeatureBundle} {e : Evaluation}
    (h : o.evaluate H G request bundle = .ok e) (requestId : Uuid) (generatedAt : Timestamp) :
    ∃ r, o.respond H G request bundle requestId generatedAt = .ok r ∧
      r.1.recommendations = Recommendation.top H e.ranked request.maxRecommendations := by
  unfold respond
  rw [h]
  exact ⟨_, rfl, rfl⟩

end Optimizer

theorem Recommendation.length_top {η : Type} (H : Hasher η) (ranked : List ScoredPairing)
    (limit : Nat) : (top H ranked limit).length = min limit ranked.length := by
  simp [top]

theorem Recommendation.getElem?_top {η : Type} (H : Hasher η) (ranked : List ScoredPairing)
    (limit i : Nat) :
    (top H ranked limit)[i]? =
      if i < limit then ranked[i]?.map (ofScored H (i + 1)) else none := by
  unfold top
  rw [List.getElem?_map, List.getElem?_zipIdx, List.getElem?_take]
  split <;> simp [Function.comp_def]

theorem compare_head_ne_gt {o : Objective} {ranked : List ScoredPairing}
    (sorted : ranked.Pairwise fun a b => Score.compare o a.score b.score ≠ .gt)
    (h : ranked ≠ []) : ∀ s ∈ ranked, Score.compare o (ranked.head h).score s.score ≠ .gt := by
  cases ranked with
  | nil => exact absurd rfl h
  | cons first rest =>
    intro s hs
    rcases List.mem_cons.mp hs with rfl | hs
    · have hself : Score.compare o s.score s.score = .eq := Std.ReflCmp.compare_self
      rw [List.head_cons, hself]
      decide
    · exact List.rel_of_pairwise_cons sorted hs

/-- What an exhaustive ranking of the pairings of a roster `players` of distinct players
promises. There is an entry for each perfect matching, that is each split of the roster into
pairs (ordered, as pairs are made); no two entries hold the same pairs; so there are `(n - 1)!!`
entries for an even roster of `n ≥ 2` players and none otherwise. Every entry partitions the
roster and is what `score` gives its pairing, and no entry is followed by a better one. -/
structure RanksEveryPairing (players : List PlayerId)
    (score : Pairing → Except Fault ScoredPairing) (objective : Objective)
    (ranked : List ScoredPairing) : Prop where
  partitions : ∀ s ∈ ranked, s.pairing.partitions players = true
  complete : 2 ≤ players.length → ∀ pairing : Pairing, pairing.partitions players = true →
    (∀ q ∈ pairing.pairs, q.Ordered) → ∃ s ∈ ranked, SamePairs s.pairing.pairs pairing.pairs
  distinct : ranked.Pairwise fun a b => ¬SamePairs a.pairing.pairs b.pairing.pairs
  length : ranked.length =
    if 2 ≤ players.length ∧ players.length % 2 = 0 then (players.length - 1).doubleFactorial
    else 0
  scored : ∀ s ∈ ranked, score s.pairing = .ok s
  sorted : ranked.Pairwise fun a b => Score.compare objective a.score b.score ≠ .gt
  best : ∀ h : ranked ≠ [], ∀ s ∈ ranked,
    Score.compare objective (ranked.head h).score s.score ≠ .gt

theorem ranksEveryPairing_of_mapM {players : List PlayerId} (hnodup : players.Nodup)
    {score : Pairing → Except Fault ScoredPairing}
    (hscore : ∀ pairing s, score pairing = .ok s → s.pairing = pairing) (objective : Objective)
    {pairings : List Pairing} {scored : List ScoredPairing}
    (hpairings : enumerate players = .ok pairings) (hscored : pairings.mapM score = .ok scored) :
    RanksEveryPairing players score objective (rankBy (·.score) objective scored) := by
  have hmap : scored.map (·.pairing) = pairings := map_of_mapM_eq_ok hscore hscored
  have hmem : ∀ {s}, s ∈ rankBy (·.score) objective scored → s.pairing ∈ pairings := by
    intro s hs
    rw [← hmap]
    exact List.mem_map_of_mem ((mem_rankBy _ _).mp hs)
  have hsorted := pairwise_rankBy (·.score) objective scored
  obtain ⟨pairings', hpairings', spec⟩ := enumerate_spec hnodup
  rw [hpairings] at hpairings'
  cases hpairings'
  by_cases hc : 2 ≤ players.length ∧ players.length % 2 = 0
  · rw [if_pos hc] at spec
    refine ⟨fun s hs => ?_, fun _ pairing hpart hordered => ?_, ?_, ?_, ?_, hsorted,
      compare_head_ne_gt hsorted⟩
    · -- the members of an enumerated pairing are a permutation of the roster
      exact Pairing.partitions_of_perm_members hnodup
        (spec.perm _ (List.mem_map_of_mem (hmem hs)))
    · obtain ⟨m, hm, hsame⟩ := spec.complete pairing.pairs
        (Pairing.perm_members_of_partitions hnodup hpart) hordered
      obtain ⟨p, hp, rfl⟩ := List.mem_map.mp hm
      rw [← hmap] at hp
      obtain ⟨s, hs, rfl⟩ := List.mem_map.mp hp
      exact ⟨s, (mem_rankBy _ _).mpr hs, hsame⟩
    · have distinct := spec.distinct
      rw [← hmap, List.map_map, List.pairwise_map] at distinct
      exact ((perm_rankBy _ _ scored).pairwise_iff fun h => fun hs => h hs.symm).mpr distinct
    · rw [if_pos hc, length_rankBy, ← List.length_map (f := fun s : ScoredPairing => s.pairing),
        hmap, ← List.length_map (f := fun p : Pairing => p.pairs), spec.length, if_pos hc.2]
    · intro s hs
      obtain ⟨p, -, hp⟩ := mem_of_mapM_eq_ok hscored ((mem_rankBy _ _).mp hs)
      rw [hscore p s hp]
      exact hp
  · rw [if_neg hc] at spec
    subst spec
    rw [List.mapM_nil, pure_eq_ok] at hscored
    subst hscored
    have hnil : rankBy (·.score) objective ([] : List ScoredPairing) = [] := by simp [rankBy]
    rw [hnil]
    refine ⟨fun s hs => absurd hs List.not_mem_nil, fun h2 pairing hpart _ => ?_,
      List.Pairwise.nil, by rw [if_neg hc]; rfl, fun s hs => absurd hs List.not_mem_nil,
      List.Pairwise.nil, fun h => absurd rfl h⟩
    have hlen := (Pairing.partitions_eq_true_iff.mp hpart).1
    exact absurd ⟨h2, by omega⟩ hc

/-- For a roster small enough to enumerate, evaluation ranks every perfect matching of the
roster's distinct players, each scored afresh by the request's mode, and the response
recommends the leading entries in order, ranked from 1. -/
theorem evaluate_ranks_every_pairing {η γ : Type} (H : Hasher η) (G : Generator γ)
    {c : Config} {o : Optimizer} (ho : Optimizer.ofConfig c = .ok o) (request : Request)
    (bundle : FeatureBundle)
    (hsmall : request.availablePlayerIds.eraseDups.length ≤ c.maxExhaustivePlayers) :
    ∃ e, o.evaluate H G request bundle = .ok e ∧ e.strategy = .exhaustive ∧
      RanksEveryPairing request.availablePlayerIds.eraseDups (o.scorePairing request bundle)
        request.objective e.ranked ∧
      ∀ requestId generatedAt, ∃ r, o.respond H G request bundle requestId generatedAt = .ok r ∧
        r.1.recommendations.length = min request.maxRecommendations e.ranked.length ∧
        ∀ i, r.1.recommendations[i]? =
          if i < request.maxRecommendations then
            e.ranked[i]?.map (Recommendation.ofScored H (i + 1))
          else none := by
  have hnodup := nodup_distinctPlayers request.availablePlayerIds
  have hstrat : o.strategyFor (distinctPlayers request.availablePlayerIds).length =
      .exhaustive := by
    obtain ⟨-, rfl⟩ := Optimizer.ofConfig_eq_ok ho
    rw [distinctPlayers_eq_eraseDups]
    simp [Optimizer.strategyFor, hsmall]
  obtain ⟨count, notices, heval⟩ := Optimizer.evaluate_of_exhaustive H G bundle hstrat
  obtain ⟨pairings, hpairings, -⟩ := enumerate_spec hnodup
  obtain ⟨scored, hscored⟩ := mapM_ok_of_forall fun p (_ : p ∈ pairings) =>
    (Optimizer.scorePairing_ok ho request bundle p).imp fun _ h => h.1
  have hok : o.evaluate H G request bundle =
      .ok ⟨rankBy (·.score) request.objective scored, .exhaustive, count, none, notices⟩ := by
    rw [heval, bind_eq_ok]
    exact ⟨pairings, hpairings, by rw [bind_eq_ok]; exact ⟨scored, hscored, rfl⟩⟩
  refine ⟨_, hok, rfl, ?_, fun requestId generatedAt => ?_⟩
  · rw [← distinctPlayers_eq_eraseDups]
    exact ranksEveryPairing_of_mapM hnodup (fun _ _ h => Optimizer.scorePairing_pairing ho h)
      request.objective hpairings hscored
  · obtain ⟨r, hr, hrec⟩ := Optimizer.respond_of_evaluate hok requestId generatedAt
    refine ⟨r, hr, ?_, fun i => ?_⟩
    · rw [hrec, Recommendation.length_top]
    · rw [hrec, Recommendation.getElem?_top]

/-- The default configuration passes its checks, and a roster of four players with one listed
twice is enumerated. -/
theorem evaluate_ranks_every_pairing_of_default :
    Optimizer.ofConfig {} = .ok ⟨{}, Config.scoringBlender {}⟩ ∧
      ["a", "b", "a", "c", "d"].eraseDups.length ≤ ({} : Config).maxExhaustivePlayers ∧
      ∃ e, Optimizer.evaluate ⟨{}, Config.scoringBlender {}⟩ Sha256.hasher Wyrand.generator
          { (default : Request) with availablePlayerIds := ["a", "b", "a", "c", "d"] } default =
          .ok e ∧ e.strategy = .exhaustive ∧
        RanksEveryPairing ["a", "b", "a", "c", "d"].eraseDups
          (Optimizer.scorePairing ⟨{}, Config.scoringBlender {}⟩
            { (default : Request) with availablePlayerIds := ["a", "b", "a", "c", "d"] } default)
          (default : Request).objective e.ranked ∧
        ∀ requestId generatedAt, ∃ r, Optimizer.respond ⟨{}, Config.scoringBlender {}⟩
            Sha256.hasher Wyrand.generator
            { (default : Request) with availablePlayerIds := ["a", "b", "a", "c", "d"] } default
            requestId generatedAt = .ok r ∧
          r.1.recommendations.length = min (default : Request).maxRecommendations e.ranked.length ∧
          ∀ i, r.1.recommendations[i]? =
            if i < (default : Request).maxRecommendations then
              e.ranked[i]?.map (Recommendation.ofScored Sha256.hasher (i + 1))
            else none :=
  have ho : Optimizer.ofConfig {} = .ok ⟨{}, Config.scoringBlender {}⟩ := rfl
  have hsmall : ["a", "b", "a", "c", "d"].eraseDups.length ≤ ({} : Config).maxExhaustivePlayers := by
    decide
  ⟨ho, hsmall, evaluate_ranks_every_pairing Sha256.hasher Wyrand.generator ho
    { (default : Request) with availablePlayerIds := ["a", "b", "a", "c", "d"] } default hsmall⟩

end DoublesLineup
