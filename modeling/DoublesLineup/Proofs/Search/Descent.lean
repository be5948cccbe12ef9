import Mathlib.Data.List.Chain
import DoublesLineup.Proofs.Search.Climb
/-! # A climb descends

A pass scores every partner swap of the current pairing in scan order and keeps a neighbour
only when it is strictly better than the one kept so far, or than the current pairing while none
is kept. The objective orders scores by a lawful total preorder, so the pass ends on the first
of the best neighbours when that beats the current pairing, and on nothing when the current
pairing is a local optimum (`bestNeighbour_chooses`).

A climb is then a chain of such moves, each strictly better than the pairing before it, of at
most the permitted passes, that ends on a local optimum unless the passes ran out
(`climb_descends`). Every restart of a search climbs so from its random pairing
(`searchPairings_restarts_descend`): the scores it visits strictly decrease, and it settles on a
pairing no worse than the one it started from.
-/

namespace DoublesLineup

section

variable (objective : Objective) (evaluate : Pairing → Except Fault ScoredPairing)

/-- The neighbour of `current` that the partner swap `move` gives, scored. -/
def neighbourBy (current : ScoredPairing) (move : Nat × Nat × Bool) :
    Except Fault ScoredPairing :=
  current.pairing.swapPartners move.1 move.2.1 move.2.2 >>= evaluate

/-- No partner swap between two pairs of `current` gives a pairing strictly better than `s`. -/
def NoNeighbourBeats (current s : ScoredPairing) : Prop :=
  ∀ first second cross, first < second → second < current.pairing.size →
    ∀ n, neighbourBy evaluate current (first, second, cross) = .ok n →
      Score.compare objective n.score s.score ≠ .lt

/-- No partner swap of `current` gives a strictly better pairing. -/
def LocalOptimum (current : ScoredPairing) : Prop :=
  NoNeighbourBeats objective evaluate current current

/-- A move of the climb: `next` is strictly better than `current`, no neighbour of `current` is
strictly better than `next`, and every neighbour the scan meets before `next` is strictly
worse than it. -/
structure BestMove (current next : ScoredPairing) : Prop where
  improves : Score.compare objective next.score current.score = .lt
  minimal : NoNeighbourBeats objective evaluate current next
  first : ∃ before move after, swapMoves current.pairing.size = before ++ move :: after ∧
    neighbourBy evaluate current move = .ok next ∧
    ∀ m ∈ before, ∀ n, neighbourBy evaluate current m = .ok n →
      Score.compare objective next.score n.score = .lt

/-- A climb of at most `passes` passes from `start` to `final` through the pairings `path`:
each a best move from the one before, ending on a local optimum unless the passes ran out. -/
structure Descent (passes : Nat) (start final : ScoredPairing) (path : List ScoredPairing) :
    Prop where
  length_le : path.length ≤ passes
  moves : (start :: path).IsChain (BestMove objective evaluate)
  last : (start :: path).getLast (List.cons_ne_nil start path) = final
  settled : path.length < passes → LocalOptimum objective evaluate final

/-! ### One pass -/

/-- What a pass knows after scanning the swaps `done`: no neighbour met beats the neighbour
kept (or `current`, while none is), and a kept neighbour beats `current` and is the first met
that all the earlier ones are strictly worse than. -/
structure PassInv (current : ScoredPairing) (done : List (Nat × Nat × Bool))
    (kept : Option ScoredPairing) : Prop where
  unbeaten : ∀ m ∈ done, ∀ n, neighbourBy evaluate current m = .ok n →
    Score.compare objective n.score (kept.getD current).score ≠ .lt
  kept_first : ∀ next, kept = some next →
    Score.compare objective next.score current.score = .lt ∧
    ∃ before move after, done = before ++ move :: after ∧
      neighbourBy evaluate current move = .ok next ∧
      ∀ m ∈ before, ∀ n, neighbourBy evaluate current m = .ok n →
        Score.compare objective next.score n.score = .lt

theorem passStep_eq (current : ScoredPairing) (acc : Option ScoredPairing × Nat)
    (move : Nat × Nat × Bool) :
    passStep objective evaluate current acc move =
      neighbourBy evaluate current move >>= fun n =>
        pure (if Score.compare objective n.score (acc.1.getD current).score == .lt
          then some n else acc.1, acc.2 + 1) := by
  simp only [passStep, neighbourBy, bind_assoc]

theorem passInv_nil (current : ScoredPairing) : PassInv objective evaluate current [] none where
  unbeaten := by simp
  kept_first := by simp

theorem PassInv.step {current : ScoredPairing} {done : List (Nat × Nat × Bool)}
    {acc acc' : Option ScoredPairing × Nat} {move : Nat × Nat × Bool}
    (hinv : PassInv objective evaluate current done acc.1)
    (h : passStep objective evaluate current acc move = .ok acc') :
    PassInv objective evaluate current (done ++ [move]) acc'.1 := by
  rw [passStep_eq, bind_eq_ok] at h
  obtain ⟨n, hn, h⟩ := h
  rw [pure_eq_ok] at h
  subst h
  have hmet : ∀ n', neighbourBy evaluate current move = .ok n' → n' = n := fun n' h' =>
    Except.ok.inj (h'.symm.trans hn)
  by_cases himp : Score.compare objective n.score (acc.1.getD current).score = .lt
  · simp only [himp, beq_self_eq_true, if_true]
    -- every neighbour met earlier is no better than the reference, which `n` beats
    have hworse : ∀ m ∈ done, ∀ n', neighbourBy evaluate current m = .ok n' →
        Score.compare objective n.score n'.score = .lt := fun m hm n' hn' =>
      Score.compare_lt_of_lt_of_not_lt himp (hinv.unbeaten m hm n' hn')
    refine ⟨fun m hm n' hn' => ?_, fun next hnext => ?_⟩
    · rcases List.mem_append.mp hm with hm | hm
      · exact Score.compare_not_lt_of_lt (hworse m hm n' hn')
      · rw [List.mem_singleton.mp hm] at hn'
        rw [hmet n' hn', Option.getD_some, Score.compare_self]
        decide
    · cases Option.some.inj hnext
      refine ⟨?_, done, move, [], rfl, hn, hworse⟩
      cases hkept : acc.1 with
      | none => simpa [hkept] using himp
      | some b =>
        have hb := (hinv.kept_first b hkept).1
        rw [hkept, Option.getD_some] at himp
        exact Std.TransCmp.lt_trans himp hb
  · have hne : (Score.compare objective n.score (acc.1.getD current).score == .lt) = false := by
      simpa using himp
    simp only [hne, Bool.false_eq_true, if_false]
    refine ⟨fun m hm n' hn' => ?_, fun next hnext => ?_⟩
    · rcases List.mem_append.mp hm with hm | hm
      · exact hinv.unbeaten m hm n' hn'
      · rw [List.mem_singleton.mp hm] at hn'
        rw [hmet n' hn']
        exact himp
    · obtain ⟨hlt, before, move', after, hdone, hmove', hbefore⟩ := hinv.kept_first next hnext
      exact ⟨hlt, before, move', after ++ [move], by simp [hdone], hmove', hbefore⟩

/-- A pass that succeeds moves to the first best neighbour when one beats the current pairing,
and to none when the current pairing is a local optimum. -/
theorem bestNeighbour_chooses {current : ScoredPairing} {best : Option ScoredPairing}
    {count : Nat} (h : bestNeighbour objective evaluate current = .ok (best, count)) :
    (best = none → LocalOptimum objective evaluate current) ∧
      ∀ next, best = some next → BestMove objective evaluate current next := by
  have hinv : PassInv objective evaluate current ([] ++ swapMoves current.pairing.size) best :=
    foldlM_inv_of_ok (fun done acc => PassInv objective evaluate current done acc.1)
      (fun _ _ _ _ hinv hstep => hinv.step objective evaluate hstep)
      (passInv_nil objective evaluate current) h
  rw [List.nil_append] at hinv
  have hunbeaten := fun first second cross (hlt : first < second)
      (hsecond : second < current.pairing.size) =>
    hinv.unbeaten _ (mem_swapMoves_of_lt cross hlt hsecond)
  refine ⟨fun hnone => ?_, fun next hnext => ?_⟩
  · intro first second cross hlt hsecond n hn
    simpa [hnone] using hunbeaten first second cross hlt hsecond n hn
  · obtain ⟨himproves, hfirst⟩ := hinv.kept_first next hnext
    refine ⟨himproves, fun first second cross hlt hsecond n hn => ?_, hfirst⟩
    simpa [hnext] using hunbeaten first second cross hlt hsecond n hn

/-! ### Climbs -/

/-- A climb that succeeds descends: it moves only to best neighbours, at most once per pass,
and ends on a local optimum unless the passes ran out. -/
theorem climb_descends {η γ : Type} {H : Hasher η} :
    ∀ {passes : Nat} {current final : ScoredPairing} {st st' : SearchState γ},
      climb H objective evaluate passes current st = .ok (final, st') →
      ∃ path, Descent objective evaluate passes current final path
  | 0, current, final, st, st', h => by
    obtain ⟨rfl, -⟩ := Prod.mk.inj (pure_eq_ok.mp h).symm
    exact ⟨[], le_refl 0, List.isChain_singleton _, rfl, fun h => absurd h (Nat.lt_irrefl 0)⟩
  | passes + 1, current, final, st, st', h => by
    rw [climb, bind_eq_ok] at h
    obtain ⟨⟨best, count⟩, hbest, h⟩ := h
    have hchoice := bestNeighbour_chooses objective evaluate hbest
    cases best with
    | none =>
      obtain ⟨rfl, -⟩ := Prod.mk.inj (pure_eq_ok.mp h).symm
      exact ⟨[], Nat.zero_le _, List.isChain_singleton _, rfl,
        fun _ => hchoice.1 rfl⟩
    | some next =>
      obtain ⟨path, hdescent⟩ := climb_descends h
      refine ⟨next :: path, ?_, ?_, ?_, fun hlt => ?_⟩
      · simpa using hdescent.length_le
      · exact List.isChain_cons_cons.mpr ⟨hchoice.2 next rfl, hdescent.moves⟩
      · rw [List.getLast_cons (List.cons_ne_nil next path)]
        exact hdescent.last
      · exact hdescent.settled (by simpa using hlt)

theorem Descent.pairwise_improves {passes : Nat} {start final : ScoredPairing}
    {path : List ScoredPairing} (d : Descent objective evaluate passes start final path) :
    (start :: path).Pairwise fun a b => Score.compare objective b.score a.score = .lt := by
  have htrans : Trans (fun a b : ScoredPairing => Score.compare objective b.score a.score = .lt)
      (fun a b : ScoredPairing => Score.compare objective b.score a.score = .lt)
      (fun a b : ScoredPairing => Score.compare objective b.score a.score = .lt) :=
    ⟨fun hab hbc => Std.TransCmp.lt_trans hbc hab⟩
  exact (d.moves.imp fun _ _ hmove => hmove.improves).pairwise

theorem Descent.final_not_worse {passes : Nat} {start final : ScoredPairing}
    {path : List ScoredPairing} (d : Descent objective evaluate passes start final path) :
    Score.compare objective final.score start.score ≠ .gt := by
  have hmem := List.getLast_mem (List.cons_ne_nil start path)
  rw [d.last] at hmem
  rcases List.mem_cons.mp hmem with rfl | hmem
  · simp [Score.compare_self]
  · rw [List.pairwise_cons.mp (d.pairwise_improves objective evaluate) |>.1 final hmem]
    decide

theorem restart_descends {η γ : Type} {H : Hasher η} {G : Generator γ} {players : List PlayerId}
    {config : SearchConfig} {st st' : SearchState γ} {final : ScoredPairing}
    (h : restart H G players config objective evaluate st = .ok (final, st')) :
    ∃ pairing g start path, randomPairing G players st.generator = .ok (pairing, g) ∧
      evaluate pairing = .ok start ∧
      Descent objective evaluate config.maxPasses start final path := by
  simp only [restart, bind_eq_ok, pure_eq_ok] at h
  obtain ⟨⟨pairing, g⟩, hrandom, start, hstart, ⟨final', st''⟩, hclimb, hfinal⟩ := h
  obtain ⟨rfl, -⟩ := Prod.mk.inj hfinal
  obtain ⟨path, hdescent⟩ := climb_descends objective evaluate hclimb
  exact ⟨pairing, g, start, path, hrandom, hstart, hdescent⟩

end

/-- What the `k`-th restart of a search does: from the state after `k` restarts it draws a
random pairing, scores it, and descends from it to the pairing it settles on; every pairing it
visits is strictly better than all before it, and the last is no worse than the first. -/
def RestartDescends {η γ : Type} (H : Hasher η) (G : Generator γ) (players : List PlayerId)
    (config : SearchConfig) (objective : Objective)
    (evaluate : Pairing → Except Fault ScoredPairing) (k : Nat) : Prop :=
  ∃ before final after start path,
    searchState H G players config objective evaluate k = .ok before ∧
    restart H G players config objective evaluate before = .ok (final, after) ∧
    (∃ g, randomPairing G players before.generator = .ok (start.pairing, g)) ∧
    evaluate start.pairing = .ok start ∧
    Descent objective evaluate config.maxPasses start final path ∧
    (start :: path).Pairwise (fun a b => Score.compare objective b.score a.score = .lt) ∧
    Score.compare objective final.score start.score ≠ .gt

theorem searchPairings_restarts_descend {η γ : Type} (H : Hasher η) {G : Generator γ}
    (hG : G.DrawsBelow) {players : List PlayerId} (hnodup : players.Nodup)
    (heven : players.length % 2 = 0) (config : SearchConfig) (objective : Objective)
    {evaluate : Pairing → Except Fault ScoredPairing}
    (hevaluate : ∀ p, ∃ s, evaluate p = .ok s ∧ s.pairing = p) :
    ∀ k < config.restarts, RestartDescends H G players config objective evaluate k := by
  obtain ⟨st, passes, -, -, -, -, -, hfinals⟩ :=
    searchState_spec H hG objective hnodup heven hevaluate config config.restarts
  intro k hk
  obtain ⟨before, final, after, hbefore, hrestart, -⟩ := hfinals k hk
  obtain ⟨pairing, g, start, path, hrandom, hstart, hdescent⟩ :=
    restart_descends objective evaluate hrestart
  have hpairing : start.pairing = pairing := by
    obtain ⟨s, hs, hs'⟩ := hevaluate pairing
    rw [hs] at hstart
    cases hstart
    exact hs'
  subst hpairing
  exact ⟨before, final, after, start, path, hbefore, hrestart, ⟨g, hrandom⟩, hstart, hdescent,
    hdescent.pairwise_improves objective evaluate, hdescent.final_not_worse objective evaluate⟩

theorem searchPairings_restarts_descend_of_four_players :
    Wyrand.generator.DrawsBelow ∧ ["a", "b", "c", "d"].Nodup ∧
      ["a", "b", "c", "d"].length % 2 = 0 ∧
      ∀ k < ({} : SearchConfig).restarts, RestartDescends Sha256.hasher Wyrand.generator
        ["a", "b", "c", "d"] {} .maxExpectedWins (fun p => .ok ⟨p, default, none⟩) k :=
  have hnodup : ["a", "b", "c", "d"].Nodup := by decide
  ⟨Wyrand.drawsBelow, hnodup, by decide,
    searchPairings_restarts_descend Sha256.hasher Wyrand.drawsBelow hnodup (by decide) {}
      .maxExpectedWins fun p => ⟨_, rfl, rfl⟩⟩

end DoublesLineup
