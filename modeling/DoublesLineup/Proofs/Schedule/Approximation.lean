import Mathlib.Algebra.Order.BigOperators.Group.List
import DoublesLineup.Proofs.Numeric.Value
import DoublesLineup.Proofs.Estimate.Bounded
import DoublesLineup.Proofs.Schedule.Greedy
/-! # The greedy round is at least half the best

Read exactly, the win probabilities of the slots a round fills add up to at least half of what
any assignment of the pairing's pairs to the round's slots could reach (`RoundMatching`: each
slot at most one admissible pair, each pair at most once, each credited with the estimate the
scheduler finds).

This is the charging argument for greedy weighted matching. The loop fixes candidates best
first, so a member of the other assignment that the loop meets with its slot and its pair
still free is fixed itself, and one that is blocked was blocked by a candidate met before it,
of no smaller probability. Each fixed candidate blocks at most two members, the one of its slot
and the one of its pair. So the members blocked so far are worth at most twice what the loop
has gained (`charge_step`, `charge_run`), and at the end every member is blocked. Two facts of
the probabilities carry it: under bounds that pass their check they lie in `[0, 1]`, so their
values are not negative, and the order of fixing, the total order of doubles, is that of their
values.
-/

namespace DoublesLineup

open FloatOrder

/-- The win probability of a candidate, read exactly. -/
def PairCandidate.value (c : PairCandidate) : ℚ := exactValue c.estimate.probability

/-- The win probabilities of a round's assignments, read exactly and summed. -/
def slotsValue (slots : List SlotAssignment) : ℚ :=
  (slots.map fun a => exactValue a.estimate.probability).sum

/-- An assignment of some of `pairs` to the slots `views` of a round: each member an admissible
combination of a slot and a pair with the estimate the scheduler finds for it, no slot and no
pair twice. -/
structure RoundMatching (l : StatsLookup) (views : List SlotView) (pairs : List Pair)
    (M : List PairCandidate) : Prop where
  admissible : ∀ c ∈ M, c ∈ roundPairCandidates l views pairs
  slotsDistinct : (M.map (·.slot)).Nodup
  pairsDistinct : (M.map (·.pair)).Nodup

/-- The loop's state `acc` has taken the slot or the pair of `c`. -/
def Blocks (acc : List SlotAssignment × List Nat × List Pair) (c : PairCandidate) : Prop :=
  c.slot ∈ acc.2.1 ∨ c.pair ∈ acc.2.2

instance (acc : List SlotAssignment × List Nat × List Pair) : DecidablePred (Blocks acc) :=
  fun _ => inferInstanceAs (Decidable (_ ∨ _))

/-- What the members of `M` that `acc` blocks are worth. -/
def blockedValue (M : List PairCandidate) (acc : List SlotAssignment × List Nat × List Pair) : ℚ :=
  (M.map fun c => if Blocks acc c then c.value else 0).sum

/-! ### Sums over a list -/

theorem sum_ite_key_le {α κ : Type} [DecidableEq κ] (key : α → κ) (k : κ) {v : ℚ} (hv : 0 ≤ v) :
    ∀ {M : List α}, (M.map key).Nodup → (M.map fun c => if key c = k then v else 0).sum ≤ v
  | [], _ => by simpa using hv
  | c :: M, hM => by
    rw [List.map_cons, List.nodup_cons] at hM
    rw [List.map_cons, List.sum_cons]
    by_cases hc : key c = k
    · -- no later entry has the key
      have hzero : (M.map fun c => if key c = k then v else 0).sum = 0 := by
        refine List.sum_eq_zero fun x hx => ?_
        obtain ⟨d, hd, rfl⟩ := List.mem_map.mp hx
        rw [if_neg fun hdk => hM.1 (List.mem_map.mpr ⟨d, hd, hdk.trans hc.symm⟩)]
      rw [if_pos hc, hzero, add_zero]
    · rw [if_neg hc, zero_add]
      exact sum_ite_key_le key k hv hM.2

theorem sum_map_modify {α : Type} (h : α → ℚ) (f : α → α) {xs : List α} {i : Nat}
    (hi : i < xs.length) :
    ((xs.modify i f).map h).sum + h xs[i] = (xs.map h).sum + h (f xs[i]) := by
  have hsum : (xs.map h).sum =
      ((xs.take i).map h).sum + h xs[i] + ((xs.drop (i + 1)).map h).sum := by
    conv_lhs => rw [← List.take_append_drop i xs, List.drop_eq_getElem_cons hi]
    simp only [List.map_append, List.map_cons, List.sum_append, List.sum_cons]
    ring
  rw [List.modify_eq_take_cons_drop hi, hsum]
  simp only [List.map_append, List.map_cons, List.sum_append, List.sum_cons]
  ring

/-! ### One step of the loop -/

section Charge

variable {M : List PairCandidate} {start : List SlotAssignment} {done : List PairCandidate}
  {acc : List SlotAssignment × List Nat × List Pair} {g : PairCandidate}

theorem blockedValue_fill (hslots : (M.map (·.slot)).Nodup) (hpairs : (M.map (·.pair)).Nodup)
    (hg : 0 ≤ g.value)
    (hnew : ∀ c ∈ M, ¬Blocks acc c → c.value ≤ g.value) (slots : List SlotAssignment) :
    blockedValue M (slots, g.slot :: acc.2.1, g.pair :: acc.2.2) ≤
      blockedValue M acc + 2 * g.value := by
  -- each member is bounded by its old share, plus `g`'s worth if it shares `g`'s slot or pair
  have hpoint : ∀ c ∈ M,
      (if Blocks (slots, g.slot :: acc.2.1, g.pair :: acc.2.2) c then c.value else 0) ≤
        ((if Blocks acc c then c.value else 0) + (if c.slot = g.slot then g.value else 0)) +
          (if c.pair = g.pair then g.value else 0) := by
    intro c hc
    have hslot : 0 ≤ if c.slot = g.slot then g.value else 0 := by split <;> simp [hg]
    have hpair : 0 ≤ if c.pair = g.pair then g.value else 0 := by split <;> simp [hg]
    by_cases hold : Blocks acc c
    · have hnow : Blocks (slots, g.slot :: acc.2.1, g.pair :: acc.2.2) c := by
        rcases hold with h | h
        · exact .inl (List.mem_cons_of_mem _ h)
        · exact .inr (List.mem_cons_of_mem _ h)
      rw [if_pos hnow, if_pos hold]
      linarith
    · rw [if_neg hold, zero_add]
      split
      · rename_i hnow
        have hle := hnew c hc hold
        rcases hnow with h | h <;> rcases List.mem_cons.mp h with h | h
        · rw [if_pos h]
          linarith
        · exact absurd (.inl h) hold
        · rw [if_pos h]
          linarith
        · exact absurd (.inr h) hold
      · linarith
  calc blockedValue M (slots, g.slot :: acc.2.1, g.pair :: acc.2.2)
      ≤ (M.map fun c => ((if Blocks acc c then c.value else 0) +
          (if c.slot = g.slot then g.value else 0)) +
            (if c.pair = g.pair then g.value else 0)).sum := List.sum_le_sum hpoint
    _ = blockedValue M acc + (M.map fun c => if c.slot = g.slot then g.value else 0).sum +
          (M.map fun c => if c.pair = g.pair then g.value else 0).sum := by
        rw [List.sum_map_add, List.sum_map_add]
        rfl
    _ ≤ blockedValue M acc + g.value + g.value := by
        gcongr
        · exact sum_ite_key_le PairCandidate.slot g.slot hg hslots
        · exact sum_ite_key_le PairCandidate.pair g.pair hg hpairs
    _ = blockedValue M acc + 2 * g.value := by ring

theorem slotsValue_fill (hinv : GreedyInv start done acc)
    (hforfeit : ∀ a ∈ start, exactValue a.estimate.probability = 0) (hc : g.slot < start.length)
    (hs : g.slot ∉ acc.2.1) :
    slotsValue (acc.1.modify g.slot fun a =>
        { a with ours := some g.pair, estimate := g.estimate }) = slotsValue acc.1 + g.value := by
  have hlen : g.slot < acc.1.length := hinv.length ▸ hc
  have hk : acc.1[g.slot]? = some acc.1[g.slot] := List.getElem?_eq_getElem hlen
  have hfree : exactValue acc.1[g.slot].estimate.probability = 0 := by
    obtain ⟨a₀, h₀, -, -, hsame⟩ := hinv.frame g.slot _ hk
    have hnone : acc.1[g.slot].ours = none := by
      cases hx : acc.1[g.slot].ours with
      | none => rfl
      | some _ => exact absurd ((hinv.slotTaken g.slot).mpr ⟨_, hk, by simp [hx]⟩) hs
    rw [hsame hnone]
    exact hforfeit a₀ (List.mem_of_getElem? h₀)
  have hsum := sum_map_modify (fun a => exactValue a.estimate.probability)
    (fun a => { a with ours := some g.pair, estimate := g.estimate }) hlen
  rw [hfree, add_zero] at hsum
  exact hsum

theorem charge_step (hinv : GreedyInv start done acc)
    (hforfeit : ∀ a ∈ start, exactValue a.estimate.probability = 0) (hc : g.slot < start.length)
    (hslots : (M.map (·.slot)).Nodup) (hpairs : (M.map (·.pair)).Nodup) (hg : 0 ≤ g.value)
    (hnew : ∀ c ∈ M, ¬Blocks acc c → c.value ≤ g.value)
    (hcharge : blockedValue M acc ≤ 2 * slotsValue acc.1) :
    blockedValue M (assignNamed acc g) ≤ 2 * slotsValue (assignNamed acc g).1 := by
  unfold assignNamed
  by_cases hs : g.slot ∈ acc.2.1
  · simp only [List.contains_iff_mem, hs, if_true]
    exact hcharge
  · by_cases hp : g.pair ∈ acc.2.2
    · simp only [List.contains_iff_mem, hs, hp, if_true, if_false]
      exact hcharge
    · simp only [List.contains_iff_mem, hs, hp, if_false]
      calc blockedValue M _
          ≤ blockedValue M acc + 2 * g.value := blockedValue_fill hslots hpairs hg hnew _
        _ ≤ 2 * slotsValue acc.1 + 2 * g.value := by linarith
        _ = 2 * slotsValue _ := by rw [slotsValue_fill hinv hforfeit hc hs]; ring

end Charge

/-! ### The whole loop -/

section Run

variable {M : List PairCandidate} {start : List SlotAssignment}
  (hforfeit : ∀ a ∈ start, exactValue a.estimate.probability = 0)
  (hslots : (M.map (·.slot)).Nodup) (hpairs : (M.map (·.pair)).Nodup)
include hforfeit hslots hpairs

/-- Over candidates met best first, the loop keeps the blocked members worth at most twice what
it gained. A member still unblocked when a candidate is met was not met before it (it would
have been blocked then), so it is that candidate or comes after it. -/
theorem charge_run : ∀ {rest done : List PairCandidate}
    {acc : List SlotAssignment × List Nat × List Pair},
    rest.Pairwise (fun a b => b.value ≤ a.value) → (∀ c ∈ rest, 0 ≤ c.value) →
    (∀ c ∈ rest, c.slot < start.length) → (∀ c ∈ M, c ∈ done ∨ c ∈ rest) →
    GreedyInv start done acc → blockedValue M acc ≤ 2 * slotsValue acc.1 →
    blockedValue M (rest.foldl assignNamed acc) ≤ 2 * slotsValue (rest.foldl assignNamed acc).1
  | [], _, _, _, _, _, _, _, hcharge => hcharge
  | g :: rest, done, acc, hsorted, hnonneg, hwithin, hcover, hinv, hcharge => by
    rw [List.pairwise_cons] at hsorted
    have hnew : ∀ c ∈ M, ¬Blocks acc c → c.value ≤ g.value := by
      intro c hc hfree
      rcases hcover c hc with hdone | hrest
      · exact absurd (hinv.maximal c hdone) hfree
      · rcases List.mem_cons.mp hrest with rfl | hrest
        · exact le_rfl
        · exact hsorted.1 c hrest
    have hcover' : ∀ c ∈ M, c ∈ done ++ [g] ∨ c ∈ rest := by
      intro c hc
      rcases hcover c hc with hdone | hrest
      · exact .inl (List.mem_append_left _ hdone)
      · rcases List.mem_cons.mp hrest with rfl | hrest
        · exact .inl (List.mem_append_right _ (List.mem_singleton_self c))
        · exact .inr hrest
    rw [List.foldl_cons]
    exact charge_run hsorted.2
      (fun c hc => hnonneg c (List.mem_cons_of_mem g hc))
      (fun c hc => hwithin c (List.mem_cons_of_mem g hc)) hcover'
      (hinv.step (hwithin g List.mem_cons_self))
      (charge_step hinv hforfeit (hwithin g List.mem_cons_self) hslots hpairs
        (hnonneg g List.mem_cons_self) hnew hcharge)

theorem value_le_two_mul_assignAllNamed {sorted : List PairCandidate}
    (hstart : ∀ a ∈ start, a.ours = none)
    (hsorted : sorted.Pairwise (fun a b => b.value ≤ a.value)) (hnonneg : ∀ c ∈ sorted, 0 ≤ c.value)
    (hwithin : ∀ c ∈ sorted, c.slot < start.length) (hcover : ∀ c ∈ M, c ∈ sorted) :
    (M.map PairCandidate.value).sum ≤ 2 * slotsValue (assignAllNamed sorted start) := by
  have hinv := GreedyInv.run hwithin (GreedyInv.init hstart)
  rw [List.nil_append] at hinv
  have hzero : blockedValue M (start, [], []) ≤ 2 * slotsValue start := by
    have hblocked : blockedValue M (start, [], []) = 0 := by simp [blockedValue, Blocks]
    have hgained : slotsValue start = 0 :=
      List.sum_eq_zero fun x hx => by
        obtain ⟨a, ha, rfl⟩ := List.mem_map.mp hx
        exact hforfeit a ha
    rw [hblocked, hgained, mul_zero]
  have hcharge := charge_run hforfeit hslots hpairs hsorted hnonneg hwithin
    (fun c hc => .inr (hcover c hc)) (GreedyInv.init hstart) hzero
  have hall : blockedValue M (sorted.foldl assignNamed (start, [], [])) =
      (M.map PairCandidate.value).sum := by
    unfold blockedValue
    congr 1
    exact List.map_congr_left fun c hc => if_pos (hinv.maximal c (hcover c hc))
  rw [hall] at hcharge
  exact hcharge

end Run

/-! ### The probabilities of a round -/

section Probabilities

variable {p : Float}

theorem isFinite_of_unit (h : 0.0 ≤ p ∧ p ≤ 1.0) : p.isFinite = true :=
  isFinite_of_le_of_le h.1 h.2 (by decide) (by decide)

theorem exactValue_nonneg_of_unit (h : 0.0 ≤ p ∧ p ≤ 1.0) : 0 ≤ exactValue p := by
  simpa using exactValue_le_of_le h.1 (by decide) (isFinite_of_unit h)

theorem PairCandidate.value_le_of_order {a b : PairCandidate}
    (ha : 0.0 ≤ a.estimate.probability ∧ a.estimate.probability ≤ 1.0)
    (hb : 0.0 ≤ b.estimate.probability ∧ b.estimate.probability ≤ 1.0) (h : a.order b ≠ .gt) :
    b.value ≤ a.value := by
  have hkey : totalKey b.estimate.probability ≤ totalKey a.estimate.probability := by
    simp only [PairCandidate.order, compareLex, compareOn, ne_eq, Ordering.then_eq_gt, not_or] at h
    exact Std.isLE_compare.mp (Ordering.ne_gt_iff_isLE.mp h.1)
  have hle := le_of_totalKey_le (isNaN_eq_false_of_isFinite (isFinite_of_unit hb))
    (isNaN_eq_false_of_isFinite (isFinite_of_unit ha)) hkey
  exact exactValue_le_of_le hle (isFinite_of_unit hb) (isFinite_of_unit ha)

variable {l : StatsLookup} (hvalid : l.blender.bounds.valid = true) {views : List SlotView}
  {pairs : List Pair}
include hvalid

theorem unit_of_mem_roundPairCandidates {c : PairCandidate}
    (hc : c ∈ roundPairCandidates l views pairs) :
    0.0 ≤ c.estimate.probability ∧ c.estimate.probability ≤ 1.0 := by
  obtain ⟨v, -, -, hfound⟩ := mem_roundPairCandidates.mp hc
  obtain ⟨-, hest⟩ := SlotView.admits_of_estimate (SlotView.estimate_of_found hfound)
  split at hest
  · exact StatsLookup.matchup_unit hvalid hest
  · exact StatsLookup.candidate_unit hvalid hest

theorem pairwise_value_sortedPairCandidates :
    (sortedPairCandidates l views pairs).Pairwise fun a b => b.value ≤ a.value := by
  have hunit : ∀ c ∈ sortedPairCandidates l views pairs,
      0.0 ≤ c.estimate.probability ∧ c.estimate.probability ≤ 1.0 := fun c hc =>
    unit_of_mem_roundPairCandidates hvalid
      ((sortedPairCandidates_perm_round l views pairs).subset hc)
  exact (pairwise_sortedPairCandidates l views pairs).imp_of_mem fun ha hb h =>
    PairCandidate.value_le_of_order (hunit _ ha) (hunit _ hb) h

end Probabilities

/-! ### A round and the match -/

theorem slotsValue_eq_filled :
    ∀ {slots : List SlotAssignment}, (∀ a ∈ slots, a.ours = none →
      exactValue a.estimate.probability = 0) →
      slotsValue slots =
        ((slots.filter (·.ours.isSome)).map fun a => exactValue a.estimate.probability).sum
  | [], _ => rfl
  | a :: slots, h => by
    have ih := slotsValue_eq_filled fun b hb => h b (List.mem_cons_of_mem a hb)
    unfold slotsValue at ih ⊢
    rw [List.map_cons, List.sum_cons, List.filter_cons, ih]
    cases hours : a.ours with
    | none => simp [h a List.mem_cons_self hours]
    | some _ => simp

/-- A round of a pairing without repeated pairs, scheduled without a fault under bounds that
pass their check, is worth at least half of any assignment of the round. -/
theorem scheduleRound_half_of_matching {l : StatsLookup} (hvalid : l.blender.bounds.valid = true)
    {pairing : Pairing} (hdistinct : pairing.pairs.Nodup) {round : Nat} {views : List SlotView}
    {slots : List SlotAssignment}
    (h : scheduleRound l pairing (pairing.pairs.map fun p => (p, none)) round views = .ok slots)
    {M : List PairCandidate} (hM : RoundMatching l views pairing.pairs M) :
    (M.map PairCandidate.value).sum ≤ 2 * slotsValue slots := by
  obtain ⟨-, rfl⟩ := scheduleRound_eq_assignAllNamed hdistinct h
  have hround := (sortedPairCandidates_perm_round l views pairing.pairs).subset
  have hforfeit : ∀ a ∈ views.map fun v => SlotAssignment.forfeit v.matchType v.opponent,
      exactValue a.estimate.probability = 0 := by
    intro a ha
    obtain ⟨v, -, rfl⟩ := List.mem_map.mp ha
    exact exactValue_zero
  refine value_le_two_mul_assignAllNamed hforfeit hM.slotsDistinct hM.pairsDistinct
    (fun a ha => ?_) (pairwise_value_sortedPairCandidates hvalid)
    (fun c hc => exactValue_nonneg_of_unit (unit_of_mem_roundPairCandidates hvalid (hround hc)))
    (fun c hc => ?_)
    (fun c hc => (sortedPairCandidates_perm_round l views pairing.pairs).symm.subset
      (hM.admissible c hc))
  · obtain ⟨v, -, rfl⟩ := List.mem_map.mp ha
    rfl
  · obtain ⟨v, hv, -⟩ := mem_roundPairCandidates.mp (hround hc)
    simpa using (List.getElem?_eq_some_iff.mp hv).1

/-- The greedy schedule of a pairing without repeated pairs, under a blender whose bounds pass
their check, against any opponent lineup: it is worked out, and in every round the win
probabilities of the slots it fills, read exactly, add up to at least half of what any
assignment of the pairing's pairs to that round's slots reaches. -/
theorem buildSchedule_half_of_best (l : StatsLookup) {pairing : Pairing}
    (hdistinct : pairing.pairs.Nodup) (hvalid : l.blender.bounds.validate = .ok ())
    (rounds : List OpponentRound) :
    ∃ s, buildSchedule l pairing rounds = .ok s ∧
      ∀ r slots, s.rounds[r]? = some slots →
        ∀ M, RoundMatching l ((List.range slotCount).map fun k =>
            ⟨slotType r k, opponentAt rounds r k⟩) pairing.pairs M →
          (M.map PairCandidate.value).sum ≤
            2 * ((slots.filter (·.ours.isSome)).map fun a =>
              exactValue a.estimate.probability).sum := by
  have hvalid' := ProbabilityBounds.valid_of_validate hvalid
  obtain ⟨s, hs⟩ := scheduleOf_ok (ProbabilityBounds.lower_le_upper hvalid') pairing
    (MatchView.ofRounds rounds)
  refine ⟨s, hs, fun r slots hr M hM => ?_⟩
  have hround := round_of_buildSchedule hs hr
  have hforfeit : ∀ a ∈ slots, a.ours = none → exactValue a.estimate.probability = 0 := by
    intro a ha hnone
    rw [((scheduleRound_play hdistinct hround).2.2.forfeit a ha hnone)]
    exact exactValue_zero
  rw [← slotsValue_eq_filled hforfeit]
  exact scheduleRound_half_of_matching hvalid' hdistinct hround hM

theorem buildSchedule_half_of_best_of_two_pairs :
    let l := StatsLookup.ofBundle {} .scoring
    let pairing : Pairing := ⟨[⟨"a", "b"⟩, ⟨"c", "d"⟩]⟩
    pairing.pairs.Nodup ∧ l.blender.bounds.validate = .ok () ∧
      ∃ s, buildSchedule l pairing [] = .ok s ∧
        ∀ r slots, s.rounds[r]? = some slots →
          ∀ M, RoundMatching l ((List.range slotCount).map fun k =>
              ⟨slotType r k, opponentAt [] r k⟩) pairing.pairs M →
            (M.map PairCandidate.value).sum ≤
              2 * ((slots.filter (·.ours.isSome)).map fun a =>
                exactValue a.estimate.probability).sum := by
  intro l pairing
  have hdistinct : pairing.pairs.Nodup := by decide
  have hvalid : l.blender.bounds.validate = .ok () :=
    show Blender.scoring.bounds.validate = .ok () from rfl
  exact ⟨hdistinct, hvalid, buildSchedule_half_of_best l hdistinct hvalid []⟩

end DoublesLineup
