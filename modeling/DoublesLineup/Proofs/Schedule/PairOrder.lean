import Mathlib.Tactic.Choose
import DoublesLineup.Proofs.Schedule.Known
import DoublesLineup.Proofs.Estimate.Index
/-! # The order in which a pairing lists its pairs

The greedy scheduler fixes a round's candidates in one order: higher win probability first,
then the earlier slot, then the earlier position in the pairing. Only the last key reads the
order in which the pairing lists its pairs, and it decides only between two pairs of equal
probability in one slot. So where no slot gives two of our pairs the same probability, the
candidates, named by their pairs, are fixed in the same order whatever the listing
(`sortedPairCandidates_perm`), the greedy assignment over numbered candidates is the one over
named candidates (`assignGreedy_eq_named`), and a listing and any permutation of it get the same
schedule and the same score; game coverage averages the same reliabilities in another order
(`knownScore_pair_order_invariant`).

With a tie the pair listed first takes the slot, and the schedule follows the listing
(`knownScore_schedule_follows_listing`).
-/

namespace DoublesLineup

/-- Our pair's estimate in a slot; `none` where the slot does not admit the pair, or where the
estimate is a fault. -/
def SlotView.found (l : StatsLookup) (v : SlotView) (p : Pair) : Option WinEstimate :=
  match v.estimate l p with
  | .ok e => e
  | .error _ => none

/-- The candidates of one slot: each of `pairs`, numbered from `i`, that has an estimate
there. -/
def slotCandidateList (found : Pair → Option WinEstimate) (slot : Nat) (pairs : List Pair)
    (i : Nat) : List Candidate :=
  (pairs.zipIdx i).filterMap fun pk => (found pk.1).map fun e => ⟨slot, pk.2, e⟩

/-- The candidates of a round, slot by slot and each slot in pairing order. -/
def roundCandidateList (l : StatsLookup) (views : List SlotView) (pairs : List Pair) :
    List Candidate :=
  views.zipIdx.flatMap fun vs => slotCandidateList (vs.1.found l) vs.2 pairs 0

theorem MatchView.get?_profiles_ofRounds (rounds : List OpponentRound) (p : Pair) :
    (ofRounds rounds).profiles.get? p = none :=
  Std.HashMap.get?_emptyWithCapacity

/-- A slot, one of our pairs by name, and the pair's estimate there. -/
@[ext]
structure PairCandidate where
  slot : Nat
  pair : Pair
  estimate : WinEstimate

/-- The candidate with its pair named: the pair at its position in `pairs`. -/
def Candidate.named (pairs : List Pair) (c : Candidate) : PairCandidate :=
  ⟨c.slot, pairs.getD c.pairIndex default, c.estimate⟩

/-- The candidates of a round named by their pairs, slot by slot and each slot in the order of
`pairs`. -/
def roundPairCandidates (l : StatsLookup) (views : List SlotView) (pairs : List Pair) :
    List PairCandidate :=
  views.zipIdx.flatMap fun vs =>
    pairs.filterMap fun p => (vs.1.found l p).map fun e => ⟨vs.2, p, e⟩

/-- The candidates of a round in the order they are fixed, named by their pairs. -/
def sortedPairCandidates (l : StatsLookup) (views : List SlotView) (pairs : List Pair) :
    List PairCandidate :=
  ((roundCandidateList l views pairs).mergeSort Candidate.before).map (Candidate.named pairs)

/-- The order of fixing as one comparison: higher probability first in the total order, then the
earlier slot, then the earlier position in the pairing. -/
def Candidate.order : Candidate → Candidate → Ordering :=
  compareLex (fun a b => compareOn (totalKey ·.estimate.probability) b a)
    (compareLex (compareOn (·.slot)) (compareOn (·.pairIndex)))

/-- The order of fixing read on named candidates: higher probability first, then the earlier
slot. -/
def PairCandidate.order : PairCandidate → PairCandidate → Ordering :=
  compareLex (fun a b => compareOn (totalKey ·.estimate.probability) b a) (compareOn (·.slot))

/-- No slot of `views` gives two of `pairs` the same win probability: the probabilities, in the
total order, of the pairs a slot admits are pairwise distinct. -/
def SlotsUntied (l : StatsLookup) (views : List SlotView) (pairs : List Pair) : Prop :=
  ∀ v ∈ views, (pairs.filterMap fun p => (v.found l p).map (totalKey ·.probability)).Nodup

/-- No slot of the match gives two of our pairs the same win probability. -/
def NoSlotTies (l : StatsLookup) (m : MatchView) (pairs : List Pair) : Prop :=
  ∀ views ∈ m.rounds, SlotsUntied l views pairs

theorem then_ne_gt_of_then_then {o₁ o₂ o₃ : Ordering} (h : o₁.then (o₂.then o₃) ≠ .gt) :
    o₁.then o₂ ≠ .gt := by
  revert h
  cases o₁ <;> cases o₂ <;> cases o₃ <;> decide

/-- Fixes a named candidate unless its slot or its pair is already taken. -/
def assignNamed (acc : List SlotAssignment × List Nat × List Pair) (c : PairCandidate) :
    List SlotAssignment × List Nat × List Pair :=
  if acc.2.1.contains c.slot then acc
  else if acc.2.2.contains c.pair then acc
  else (acc.1.modify c.slot fun a => { a with ours := some c.pair, estimate := c.estimate },
    c.slot :: acc.2.1, c.pair :: acc.2.2)

/-- The assignments made by fixing named candidates in order. -/
def assignAllNamed (cs : List PairCandidate) (start : List SlotAssignment) :
    List SlotAssignment :=
  (cs.foldl assignNamed (start, [], [])).1

/-- The numbered and the named greedy states agree: the same `n` assignments and the same taken
slots; the taken pairs are those at the taken positions, each the position of a candidate of
`cs`. -/
structure AssignAgree (pairs : List Pair) (cs : List Candidate) (n : Nat)
    (acc : List SlotAssignment × List Nat × List Nat)
    (named : List SlotAssignment × List Nat × List Pair) : Prop where
  slots : named.1 = acc.1
  length : acc.1.length = n
  slotTaken : named.2.1 = acc.2.1
  pairTaken : named.2.2 = acc.2.2.map (pairs.getD · default)
  positions : ∀ k ∈ acc.2.2, ∃ d ∈ cs, d.pairIndex = k

namespace Candidate

theorem before_eq (a b : Candidate) : a.before b = (order a b != .gt) := rfl

instance instTransCmpOrder : Std.TransCmp order := by
  unfold order
  exact inferInstance

theorem before_trans (a b c : Candidate) (hab : a.before b = true) (hbc : b.before c = true) :
    a.before c = true := by
  simp only [before_eq, bne_iff_ne, ne_eq, ← Ordering.isLE_iff_ne_gt] at hab hbc ⊢
  exact Std.TransCmp.isLE_trans hab hbc

theorem before_total (a b : Candidate) : (a.before b || b.before a) = true := by
  have hswap : order b a = (order a b).swap := Std.OrientedCmp.eq_swap
  simp only [before_eq, Bool.or_eq_true, bne_iff_ne, ne_eq, hswap]
  cases order a b <;> decide

theorem order_named_ne_gt {a b : Candidate} (h : a.before b = true) (pairs pairs' : List Pair) :
    PairCandidate.order (a.named pairs) (b.named pairs') ≠ .gt := by
  have hfull : order a b ≠ .gt := by simpa only [before_eq, bne_iff_ne] using h
  exact @then_ne_gt_of_then_then _ _ (compare a.pairIndex b.pairIndex) hfull

end Candidate

theorem mem_roundCandidateList {l : StatsLookup} {views : List SlotView} {pairs : List Pair}
    {c : Candidate} : c ∈ roundCandidateList l views pairs ↔
      ∃ v, views[c.slot]? = some v ∧ ∃ p, pairs[c.pairIndex]? = some p ∧
        v.found l p = some c.estimate := by
  simp only [roundCandidateList, slotCandidateList, List.mem_flatMap, List.mem_filterMap,
    Option.map_eq_some_iff, List.mem_zipIdx_iff_getElem?]
  constructor
  · rintro ⟨⟨v, s⟩, hv, ⟨p, i⟩, hp, e, he, rfl⟩
    exact ⟨v, hv, p, hp, he⟩
  · rintro ⟨v, hv, p, hp, he⟩
    exact ⟨⟨v, c.slot⟩, hv, ⟨p, c.pairIndex⟩, hp, c.estimate, he, rfl⟩

theorem mem_roundPairCandidates {l : StatsLookup} {views : List SlotView} {pairs : List Pair}
    {a : PairCandidate} : a ∈ roundPairCandidates l views pairs ↔
      ∃ v, views[a.slot]? = some v ∧ a.pair ∈ pairs ∧ v.found l a.pair = some a.estimate := by
  simp only [roundPairCandidates, List.mem_flatMap, List.mem_filterMap, Option.map_eq_some_iff,
    List.mem_zipIdx_iff_getElem?]
  constructor
  · rintro ⟨⟨v, s⟩, hv, p, hp, e, he, rfl⟩
    exact ⟨v, hv, hp, he⟩
  · rintro ⟨v, hv, hp, he⟩
    exact ⟨⟨v, a.slot⟩, hv, a.pair, hp, a.estimate, he, rfl⟩

theorem ne_of_nodup_filterMap_cons {α β : Type} {f : α → Option β} {a : α} {xs : List α}
    (h : ((a :: xs).filterMap f).Nodup) {b : β} (ha : f a = some b) {y : α} (hy : y ∈ xs) :
    f y ≠ some b := by
  rw [List.filterMap_cons_some ha, List.nodup_cons] at h
  exact fun hfy => h.1 (List.mem_filterMap.mpr ⟨y, hy, hfy⟩)

theorem index_eq_of_nodup_filterMap {α β : Type} {f : α → Option β} {xs : List α}
    (h : (xs.filterMap f).Nodup) {i j : Nat} {x y : α} {b : β} (hx : xs[i]? = some x)
    (hy : xs[j]? = some y) (hfx : f x = some b) (hfy : f y = some b) : i = j := by
  induction xs generalizing i j with
  | nil => simp at hx
  | cons a xs ih =>
    cases i with
    | zero =>
      cases j with
      | zero => rfl
      | succ j =>
        simp only [List.getElem?_cons_zero, Option.some.injEq, List.getElem?_cons_succ] at hx hy
        subst hx
        exact absurd hfy (ne_of_nodup_filterMap_cons h hfx (List.mem_of_getElem? hy))
    | succ i =>
      cases j with
      | zero =>
        simp only [List.getElem?_cons_zero, Option.some.injEq, List.getElem?_cons_succ] at hx hy
        subst hy
        exact absurd hfx (ne_of_nodup_filterMap_cons h hfy (List.mem_of_getElem? hx))
      | succ j =>
        simp only [List.getElem?_cons_succ] at hx hy
        have htail : (xs.filterMap f).Nodup :=
          h.sublist ((List.sublist_cons_self a xs).filterMap f)
        rw [ih htail hx hy]

namespace PairCandidate

instance instTransCmpOrder : Std.TransCmp order := by
  unfold order
  exact inferInstance

theorem order_eq_of_ne_gt {a b : PairCandidate} (hab : a.order b ≠ .gt) (hba : b.order a ≠ .gt) :
    a.order b = .eq := by
  have hswap : b.order a = (a.order b).swap := Std.OrientedCmp.eq_swap
  rw [hswap] at hba
  cases h : a.order b <;> simp_all

theorem slot_eq_of_order_eq {a b : PairCandidate} (h : a.order b = .eq) :
    a.slot = b.slot ∧ totalKey a.estimate.probability = totalKey b.estimate.probability := by
  simp only [order, compareLex, compareOn, Ordering.then_eq_eq] at h
  exact ⟨Std.LawfulEqOrd.eq_of_compare h.2, (Std.LawfulEqOrd.eq_of_compare h.1).symm⟩

end PairCandidate

theorem map_named_roundCandidateList (l : StatsLookup) (views : List SlotView)
    (pairs : List Pair) :
    (roundCandidateList l views pairs).map (Candidate.named pairs) =
      roundPairCandidates l views pairs := by
  unfold roundCandidateList roundPairCandidates slotCandidateList
  rw [List.map_flatMap]
  refine List.flatMap_congr fun vs _ => ?_
  conv_rhs => rw [← List.zipIdx_map_fst 0 pairs, List.filterMap_map]
  rw [List.map_filterMap]
  refine List.filterMap_congr fun pk hpk => ?_
  rw [List.mem_zipIdx_iff_getElem?] at hpk
  simp [Option.map_map, Function.comp_def, Candidate.named, List.getD_eq_getElem?_getD, hpk]

theorem roundPairCandidates_perm (l : StatsLookup) (views : List SlotView)
    {pairs pairs' : List Pair} (h : pairs'.Perm pairs) :
    (roundPairCandidates l views pairs').Perm (roundPairCandidates l views pairs) :=
  List.Perm.flatMap_left _ fun _ _ => h.filterMap _

theorem sortedPairCandidates_perm_round (l : StatsLookup) (views : List SlotView)
    (pairs : List Pair) :
    (sortedPairCandidates l views pairs).Perm (roundPairCandidates l views pairs) := by
  rw [← map_named_roundCandidateList]
  exact (List.mergeSort_perm _ _).map _

theorem pairwise_sortedPairCandidates (l : StatsLookup) (views : List SlotView)
    (pairs : List Pair) :
    (sortedPairCandidates l views pairs).Pairwise fun a b => a.order b ≠ .gt := by
  unfold sortedPairCandidates
  rw [List.pairwise_map]
  exact (List.pairwise_mergeSort Candidate.before_trans Candidate.before_total _).imp
    fun h => Candidate.order_named_ne_gt h pairs pairs

theorem eq_of_order_eq {l : StatsLookup} {views : List SlotView} {pairs : List Pair}
    (hties : SlotsUntied l views pairs) {a b : PairCandidate}
    (ha : a ∈ roundPairCandidates l views pairs) (hb : b ∈ roundPairCandidates l views pairs)
    (hab : a.order b = .eq) : a = b := by
  obtain ⟨v, hv, hpa, hea⟩ := mem_roundPairCandidates.mp ha
  obtain ⟨v', hv', hpb, heb⟩ := mem_roundPairCandidates.mp hb
  obtain ⟨hslot, hkey⟩ := PairCandidate.slot_eq_of_order_eq hab
  have hview : v' = v := Option.some.inj (hv'.symm.trans (hslot ▸ hv))
  subst hview
  obtain ⟨i, hi⟩ := List.getElem?_of_mem hpa
  obtain ⟨j, hj⟩ := List.getElem?_of_mem hpb
  have hij : i = j := index_eq_of_nodup_filterMap (hties v' (List.mem_of_getElem? hv)) hi hj
    (by rw [hea]; rfl) (by rw [heb, Option.map_some, ← hkey])
  subst hij
  have hpair : a.pair = b.pair := Option.some.inj (hi.symm.trans hj)
  have hest : a.estimate = b.estimate := by
    rw [hpair] at hea
    exact Option.some.inj (hea.symm.trans heb)
  exact PairCandidate.ext hslot hpair hest

theorem sortedPairCandidates_perm {l : StatsLookup} {views : List SlotView}
    {pairs pairs' : List Pair} (h : pairs'.Perm pairs) (hties : SlotsUntied l views pairs) :
    sortedPairCandidates l views pairs' = sortedPairCandidates l views pairs := by
  have hround := sortedPairCandidates_perm_round l views pairs
  have hround' := (sortedPairCandidates_perm_round l views pairs').trans
    (roundPairCandidates_perm l views h)
  refine List.Perm.eq_of_pairwise (fun a b ha hb hab hba => ?_)
    (pairwise_sortedPairCandidates l views pairs') (pairwise_sortedPairCandidates l views pairs)
    (hround'.trans hround.symm)
  exact eq_of_order_eq hties (hround'.subset ha) (hround.subset hb)
    (PairCandidate.order_eq_of_ne_gt hab hba)

section Agree

variable {pairing : Pairing} {cs : List Candidate} {n : Nat}
  (hwithin : ∀ c ∈ cs, c.Within n pairing.pairs.length)
  (hinj : ∀ c ∈ cs, ∀ d ∈ cs,
    pairing.pairs.getD c.pairIndex default = pairing.pairs.getD d.pairIndex default →
      c.pairIndex = d.pairIndex)
include hwithin hinj

theorem AssignAgree.step {acc : List SlotAssignment × List Nat × List Nat}
    {named : List SlotAssignment × List Nat × List Pair}
    (h : AssignAgree pairing.pairs cs n acc named) {c : Candidate} (hc : c ∈ cs) :
    ∃ acc', assignStep pairing acc c = .ok acc' ∧
      AssignAgree pairing.pairs cs n acc' (assignNamed named (c.named pairing.pairs)) := by
  obtain ⟨slots, st, taken⟩ := acc
  obtain ⟨slots', st', pt'⟩ := named
  obtain ⟨hslots, hlen, hst, hpt, hpos⟩ := h
  dsimp only at hslots hlen hst hpt hpos
  subst slots' st' pt'
  obtain ⟨hslot, hpair⟩ := hwithin c hc
  have hget : pairing.pairs.getD c.pairIndex default = pairing.pairs[c.pairIndex] :=
    List.getD_eq_getElem _ _ hpair
  unfold assignStep assignNamed
  dsimp only [Candidate.named]
  rw [if_pos (hlen ▸ hslot)]
  by_cases hs : c.slot ∈ st
  · refine ⟨(slots, st, taken), by simp [hs], ?_⟩
    simp only [List.contains_iff_mem, hs, if_true]
    exact ⟨rfl, hlen, rfl, rfl, hpos⟩
  · by_cases hp : c.pairIndex ∈ taken
    · -- the position is taken, so is the pair it holds
      have hp' : pairing.pairs.getD c.pairIndex default ∈
          taken.map (pairing.pairs.getD · default) := List.mem_map_of_mem hp
      refine ⟨(slots, st, taken), by simp [hs, hp, Pairing.pairAt_of_lt hpair], ?_⟩
      simp only [List.contains_iff_mem, hs, hp', if_true, if_false]
      exact ⟨rfl, hlen, rfl, rfl, hpos⟩
    · -- a taken pair at another position would be a second position of this pair
      have hp' : pairing.pairs.getD c.pairIndex default ∉
          taken.map (pairing.pairs.getD · default) := by
        intro hmem
        obtain ⟨k, hk, hkeq⟩ := List.mem_map.mp hmem
        obtain ⟨d, hd, rfl⟩ := hpos k hk
        exact hp (hinj c hc d hd hkeq.symm ▸ hk)
      refine ⟨(slots.modify c.slot fun a =>
          { a with ours := some pairing.pairs[c.pairIndex], estimate := c.estimate },
        c.slot :: st, c.pairIndex :: taken), by simp [hs, hp, Pairing.pairAt_of_lt hpair], ?_⟩
      simp only [List.contains_iff_mem, hs, hp', if_false]
      refine ⟨by rw [hget], by simpa using hlen, rfl, by simp, ?_⟩
      intro k hk
      rcases List.mem_cons.mp hk with rfl | hk
      · exact ⟨c, hc, rfl⟩
      · exact hpos k hk

theorem AssignAgree.run {rest : List Candidate} (hrest : ∀ c ∈ rest, c ∈ cs) :
    ∀ {acc : List SlotAssignment × List Nat × List Nat}
      {named : List SlotAssignment × List Nat × List Pair},
      AssignAgree pairing.pairs cs n acc named →
      ∃ acc', rest.foldlM (assignStep pairing) acc = .ok acc' ∧
        AssignAgree pairing.pairs cs n acc'
          ((rest.map (Candidate.named pairing.pairs)).foldl assignNamed named) := by
  induction rest with
  | nil => exact fun h => ⟨_, rfl, h⟩
  | cons c rest ih =>
    intro acc named h
    obtain ⟨acc₁, h₁, hagree₁⟩ := h.step hwithin hinj (hrest c List.mem_cons_self)
    obtain ⟨acc', h', hagree'⟩ :=
      ih (fun d hd => hrest d (List.mem_cons_of_mem c hd)) hagree₁
    exact ⟨acc', by rw [List.foldlM_cons, h₁, ok_bind, h'], hagree'⟩

theorem assignGreedy_eq_named (start : List SlotAssignment) (hn : start.length = n) :
    assignGreedy pairing cs start =
      .ok (assignAllNamed (cs.map (Candidate.named pairing.pairs)) start) := by
  have hstart : AssignAgree pairing.pairs cs n (start, [], []) (start, [], []) :=
    ⟨rfl, hn, rfl, rfl, by simp⟩
  obtain ⟨⟨assigned, slotTaken, taken⟩, hfold, hagree⟩ :=
    AssignAgree.run hwithin hinj (fun c hc => hc) hstart
  unfold assignGreedy assignAllNamed
  rw [hfold, ok_bind]
  exact congrArg Except.ok hagree.slots.symm

end Agree

theorem roundCandidateList_index_inj {l : StatsLookup} {views : List SlotView}
    {pairs : List Pair} (hties : SlotsUntied l views pairs) :
    ∀ c ∈ roundCandidateList l views pairs, ∀ d ∈ roundCandidateList l views pairs,
      pairs.getD c.pairIndex default = pairs.getD d.pairIndex default →
        c.pairIndex = d.pairIndex := by
  intro c hc d hd heq
  obtain ⟨v, hv, p, hp, he⟩ := mem_roundCandidateList.mp hc
  obtain ⟨v', hv', q, hq, -⟩ := mem_roundCandidateList.mp hd
  have hpq : p = q := by
    simpa only [List.getD_eq_getElem?_getD, hp, hq, Option.getD_some] using heq
  subst hpq
  have hkey : (v.found l p).map (totalKey ·.probability) =
      some (totalKey c.estimate.probability) := by rw [he]; rfl
  exact index_eq_of_nodup_filterMap (hties v (List.mem_of_getElem? hv)) hp hq hkey hkey

theorem pairwise_zipIdx_lt {α : Type} (xs : List α) (n : Nat) :
    (xs.zipIdx n).Pairwise fun a b => a.2 < b.2 := by
  induction xs generalizing n with
  | nil => exact List.Pairwise.nil
  | cons x xs ih =>
    rw [List.zipIdx_cons, List.pairwise_cons]
    refine ⟨fun ⟨y, i⟩ hy => ?_, ih (n + 1)⟩
    have := (List.mem_zipIdx hy).1
    dsimp only
    omega

theorem pairwise_roundCandidateList (l : StatsLookup) (views : List SlotView)
    (pairs : List Pair) :
    (roundCandidateList l views pairs).Pairwise fun a b =>
      a.slot < b.slot ∨ (a.slot = b.slot ∧ a.pairIndex < b.pairIndex) := by
  have hslot : ∀ {v : SlotView} {s : Nat} {c : Candidate},
      c ∈ slotCandidateList (v.found l) s pairs 0 → c.slot = s := by
    intro v s c hc
    simp only [slotCandidateList, List.mem_filterMap, Option.map_eq_some_iff] at hc
    obtain ⟨_, _, _, _, rfl⟩ := hc
    rfl
  unfold roundCandidateList
  rw [List.pairwise_flatMap]
  refine ⟨fun vs _ => ?_, (pairwise_zipIdx_lt views 0).imp fun hlt x hx y hy => ?_⟩
  · refine List.Pairwise.filterMap _ (fun a b hab c hc d hd => ?_) (pairwise_zipIdx_lt pairs 0)
    simp only [Option.map_eq_some_iff] at hc hd
    obtain ⟨_, _, rfl⟩ := hc
    obtain ⟨_, _, rfl⟩ := hd
    exact .inr ⟨rfl, hab⟩
  · exact .inl (by rw [hslot hx, hslot hy]; exact hlt)

theorem mergeSort_roundCandidateList_of_tied {l : StatsLookup} {k : UInt64}
    (h : ∀ (v : SlotView) (p : Pair) (e : WinEstimate), v.found l p = some e →
      totalKey e.probability = k) (views : List SlotView)
    (pairs : List Pair) :
    (roundCandidateList l views pairs).mergeSort Candidate.before =
      roundCandidateList l views pairs := by
  have hkey : ∀ c ∈ roundCandidateList l views pairs, totalKey c.estimate.probability = k := by
    intro c hc
    obtain ⟨v, -, p, -, he⟩ := mem_roundCandidateList.mp hc
    exact h v p c.estimate he
  apply List.mergeSort_of_pairwise
  refine (pairwise_roundCandidateList l views pairs).imp_of_mem fun {a b} ha hb hab => ?_
  show ((compare (totalKey b.estimate.probability) (totalKey a.estimate.probability)).then
    ((compare a.slot b.slot).then (compare a.pairIndex b.pairIndex)) != .gt) = true
  have hk : compare k k = .eq := Std.ReflCmp.compare_self
  rw [hkey a ha, hkey b hb, hk]
  rcases hab with hs | ⟨hs, hi⟩
  · rw [Nat.compare_eq_lt.mpr hs]
    rfl
  · rw [Nat.compare_eq_eq.mpr hs, Nat.compare_eq_lt.mpr hi]
    rfl

section Found

variable {l : StatsLookup} (hl : l.blender.bounds.lower ≤ l.blender.bounds.upper)
include hl

theorem SlotView.estimate_eq_found (v : SlotView) (p : Pair) :
    v.estimate l p = .ok (v.found l p) := by
  obtain ⟨e, he⟩ := v.estimate_ok hl p
  rw [he, found, he]

theorem slotCandidates_eq (v : SlotView) (round slot : Nat) (pairs : List Pair) (i : Nat)
    (acc : List Candidate) :
    slotCandidates l v round slot (pairs.map fun p => (p, none)) i acc =
      .ok ((slotCandidateList (v.found l) slot pairs i).reverse ++ acc) := by
  induction pairs generalizing i acc with
  | nil => rfl
  | cons p rest ih =>
    have hest : slotEstimate l v none round slot p = .ok (v.found l p) :=
      v.estimate_eq_found hl p
    rw [List.map_cons, slotCandidates, hest, ok_bind]
    cases hp : v.found l p with
    | some e =>
      have hrow := ih (i + 1) (⟨slot, i, e⟩ :: acc)
      simp only [slotCandidateList, List.zipIdx_cons, List.filterMap_cons, hp] at hrow ⊢
      simpa using hrow
    | none =>
      have hrow := ih (i + 1) acc
      simp only [slotCandidateList, List.zipIdx_cons, List.filterMap_cons, hp] at hrow ⊢
      simpa using hrow

theorem slotsCandidates_eq (pairs : List Pair) (round : Nat) (views : List SlotView)
    (slot : Nat) (acc : List Candidate) :
    slotsCandidates l (pairs.map fun p => (p, none)) round views slot acc =
      .ok (((views.zipIdx slot).flatMap fun vs =>
        slotCandidateList (vs.1.found l) vs.2 pairs 0).reverse ++ acc) := by
  induction views generalizing slot acc with
  | nil => rfl
  | cons v rest ih =>
    rw [slotsCandidates, slotCandidates_eq hl, ok_bind, ih]
    simp

theorem roundCandidates_eq (pairs : List Pair) (round : Nat) (views : List SlotView) :
    roundCandidates l (pairs.map fun p => (p, none)) round views =
      .ok (roundCandidateList l views pairs) := by
  rw [roundCandidates, slotsCandidates_eq hl, ok_bind, List.append_nil, List.reverse_reverse]
  rfl

theorem scheduleRound_eq_assignGreedy (pairing : Pairing) (round : Nat) (views : List SlotView) :
    scheduleRound l pairing (pairing.pairs.map fun p => (p, none)) round views =
      assignGreedy pairing ((roundCandidateList l views pairing.pairs).mergeSort Candidate.before)
        (views.map fun v => SlotAssignment.forfeit v.matchType v.opponent) := by
  rw [scheduleRound, roundCandidates_eq hl, ok_bind]

theorem buildSchedule_eq (pairing : Pairing) (rounds : List OpponentRound) :
    buildSchedule l pairing rounds = Schedule.mk <$>
      (MatchView.ofRounds rounds).rounds.zipIdx.mapM fun vr =>
        assignGreedy pairing ((roundCandidateList l vr.1 pairing.pairs).mergeSort Candidate.before)
          (vr.1.map fun v => SlotAssignment.forfeit v.matchType v.opponent) := by
  unfold buildSchedule scheduleOf
  simp only [MatchView.get?_profiles_ofRounds]
  rw [map_eq_pure_bind]
  congr 1
  apply mapM_congr
  rintro ⟨views, round⟩ -
  exact scheduleRound_eq_assignGreedy hl pairing round views

theorem scheduleRound_eq_named (pairing : Pairing) (round : Nat) (views : List SlotView)
    (hties : SlotsUntied l views pairing.pairs) :
    scheduleRound l pairing (pairing.pairs.map fun p => (p, none)) round views =
      .ok (assignAllNamed (sortedPairCandidates l views pairing.pairs)
        (views.map fun v => SlotAssignment.forfeit v.matchType v.opponent)) := by
  have hwithin := roundCandidates_within (roundCandidates_eq hl pairing.pairs round views)
  rw [scheduleRound_eq_assignGreedy hl]
  refine assignGreedy_eq_named (fun c hc => ?_) (fun c hc d hd => ?_) _ (List.length_map _)
  · simpa using hwithin c (List.mem_mergeSort.mp hc)
  · exact roundCandidateList_index_inj hties c (List.mem_mergeSort.mp hc) d
      (List.mem_mergeSort.mp hd)

/-- Without ties in a round, a pairing and any permutation of it get the same assignments. -/
theorem scheduleRound_pair_order {pairing pairing' : Pairing}
    (h : pairing'.pairs.Perm pairing.pairs) (round : Nat) (views : List SlotView)
    (hties : SlotsUntied l views pairing.pairs) :
    scheduleRound l pairing' (pairing'.pairs.map fun p => (p, none)) round views =
      scheduleRound l pairing (pairing.pairs.map fun p => (p, none)) round views := by
  have hties' : SlotsUntied l views pairing'.pairs :=
    fun v hv => (h.filterMap _).nodup_iff.mpr (hties v hv)
  rw [scheduleRound_eq_named hl pairing' round views hties',
    scheduleRound_eq_named hl pairing round views hties, sortedPairCandidates_perm h hties]

theorem buildSchedule_pair_order {pairing pairing' : Pairing}
    (h : pairing'.pairs.Perm pairing.pairs) {rounds : List OpponentRound}
    (hties : NoSlotTies l (MatchView.ofRounds rounds) pairing.pairs) :
    buildSchedule l pairing' rounds = buildSchedule l pairing rounds := by
  unfold buildSchedule scheduleOf
  simp only [MatchView.get?_profiles_ofRounds]
  congr 1
  apply mapM_congr
  rintro ⟨views, round⟩ hmem
  rw [List.mem_zipIdx_iff_getElem?] at hmem
  exact scheduleRound_pair_order hl h round views (hties views (List.mem_of_getElem? hmem))

end Found

section Score

variable {l : StatsLookup} (hl : l.blender.bounds.lower ≤ l.blender.bounds.upper)
include hl

theorem gameCoverage_perm {pairing pairing' : Pairing} (h : pairing'.pairs.Perm pairing.pairs) :
    ∃ rs rs', rs'.Perm rs ∧ l.gameCoverage pairing = .ok (Sample.mean rs) ∧
      l.gameCoverage pairing' = .ok (Sample.mean rs') := by
  choose own hown using StatsLookup.ownEstimate_ok hl
  have hmap : ∀ ps : List Pair, ps.mapM (fun p => WinEstimate.reliability <$> l.ownEstimate p) =
      .ok (ps.map fun p => (own p).reliability) :=
    fun ps => mapM_eq_ok_map fun p _ => by rw [hown p]; rfl
  refine ⟨_, _, h.map fun p => (own p).reliability, ?_, ?_⟩ <;>
    simp [StatsLookup.gameCoverage, hmap]

end Score

/-- A known-opponent score is read off the schedule, but for game coverage. -/
theorem knownScore_eq {l : StatsLookup} {pairing : Pairing} {rounds : List OpponentRound}
    {s : Schedule} {c : Float} (hs : buildSchedule l pairing rounds = .ok s)
    (hc : l.gameCoverage pairing = .ok c) (q : Float) (aggregation : Aggregation) :
    knownScore pairing rounds l q aggregation =
      .ok (⟨Sample.sum s.slotWins, (aggregation.summarise s q).1, (aggregation.summarise s q).2,
        ⟨Sample.mean (s.slots.map (·.estimate.reliability)), c,
          Sample.mean (s.slots.map (·.estimate.matchupReliability))⟩, s.filled⟩, s) := by
  unfold knownScore knownScoreOf
  rw [show scheduleOf l pairing (MatchView.ofRounds rounds) = .ok s from hs, ok_bind, hc]
  rfl

theorem SlotView.found_of_no_statistics {l : StatsLookup} (hc : l.candidates = ∅)
    (hm : l.matchups = ∅) (v : SlotView) (p : Pair) :
    v.found l p =
      if v.matchType.admits (l.gender p.low) (l.gender p.high) then some .neutral else none := by
  have hcand : ∀ t, l.candidate p (some t) = .ok .neutral := by
    intro t
    simp [StatsLookup.candidate, StatsLookup.candidateStat, hc]
  have hest : v.estimate l p = .ok
      (if v.matchType.admits (l.gender p.low) (l.gender p.high) then some .neutral else none) := by
    unfold estimate
    by_cases hadm : v.matchType.admits (l.gender p.low) (l.gender p.high) = true
    · rw [if_pos hadm, if_pos hadm]
      split
      · simp [StatsLookup.matchup, StatsLookup.matchupStat, StatsLookup.meetingType, hm, hcand]
      · rw [hcand]
        rfl
    · rw [if_neg hadm, if_neg hadm]
      rfl
  rw [found, hest]

theorem knownScore_map_schedule {l : StatsLookup}
    (hl : l.blender.bounds.lower ≤ l.blender.bounds.upper) (pairing : Pairing)
    (rounds : List OpponentRound) (q : Float) (aggregation : Aggregation) :
    (knownScore pairing rounds l q aggregation).map Prod.snd = buildSchedule l pairing rounds := by
  obtain ⟨s, hs⟩ := scheduleOf_ok hl pairing (MatchView.ofRounds rounds)
  obtain ⟨c, hc⟩ := l.gameCoverage_ok hl pairing
  rw [knownScore_eq hs hc q aggregation]
  exact hs.symm

/-- Where no slot of the match gives two of our pairs the same win probability, the order in
which a pairing lists its pairs does not matter: a permutation gets the same schedule and the
same score, but for game coverage, which averages the same reliabilities in the permuted order
and so is equal in exact arithmetic. -/
theorem knownScore_pair_order_invariant {l : StatsLookup}
    (hl : l.blender.bounds.lower ≤ l.blender.bounds.upper) {rounds : List OpponentRound}
    {pairing pairing' : Pairing} (hperm : pairing'.pairs.Perm pairing.pairs)
    (hties : NoSlotTies l (MatchView.ofRounds rounds) pairing.pairs) (q : Float)
    (aggregation : Aggregation) :
    ∃ score schedule game, knownScore pairing rounds l q aggregation = .ok (score, schedule) ∧
      knownScore pairing' rounds l q aggregation =
        .ok ({ score with coverage := { score.coverage with game := game } }, schedule) ∧
      ∃ rs rs', rs'.Perm rs ∧ score.coverage.game = Sample.mean rs ∧ game = Sample.mean rs' := by
  obtain ⟨s, hs⟩ := scheduleOf_ok hl pairing (MatchView.ofRounds rounds)
  have hs' : buildSchedule l pairing' rounds = .ok s :=
    (buildSchedule_pair_order hl hperm hties).trans hs
  obtain ⟨rs, rs', hrs, hc, hc'⟩ := gameCoverage_perm hl hperm
  exact ⟨_, s, Sample.mean rs', knownScore_eq hs hc q aggregation,
    knownScore_eq hs' hc' q aggregation, rs, rs', hrs, rfl, rfl⟩

theorem knownScore_pair_order_invariant_of_gendered_pairs :
    let l := (StatsLookup.ofBundle {} .scoring).withGenders
      [("a", .female), ("b", .male), ("c", .male), ("d", .male), ("e", .female), ("f", .female)]
    let mixed : Pair := ⟨"a", "b"⟩
    let men : Pair := ⟨"c", "d"⟩
    let women : Pair := ⟨"e", "f"⟩
    l.blender.bounds.lower ≤ l.blender.bounds.upper ∧
      [women, mixed, men].Perm [mixed, men, women] ∧
      NoSlotTies l (MatchView.ofRounds []) [mixed, men, women] ∧
      ∃ score schedule game,
        knownScore ⟨[mixed, men, women]⟩ [] l 0.25 .perRound = .ok (score, schedule) ∧
        knownScore ⟨[women, mixed, men]⟩ [] l 0.25 .perRound =
          .ok ({ score with coverage := { score.coverage with game := game } }, schedule) ∧
        ∃ rs rs', rs'.Perm rs ∧ score.coverage.game = Sample.mean rs ∧ game = Sample.mean rs' := by
  intro l mixed men women
  have hl : l.blender.bounds.lower ≤ l.blender.bounds.upper := by decide
  have hperm : [women, mixed, men].Perm [mixed, men, women] := by decide
  have hties : NoSlotTies l (MatchView.ofRounds []) [mixed, men, women] := by
    have hc : l.candidates = ∅ := rfl
    have hm : l.matchups = ∅ := rfl
    unfold NoSlotTies SlotsUntied
    simp only [SlotView.found_of_no_statistics hc hm, l, StatsLookup.gender_withGenders,
      StatsLookup.gender_ofBundle]
    decide
  exact ⟨hl, hperm, hties, knownScore_pair_order_invariant hl hperm hties 0.25 .perRound⟩

/-- Two pairs with no statistics tie in every slot, and the pair listed first takes the first
slot: the schedule follows the order in which the pairing lists its pairs. -/
theorem knownScore_schedule_follows_listing :
    let l := StatsLookup.ofBundle {} .scoring
    let ab : Pair := ⟨"a", "b"⟩
    let cd : Pair := ⟨"c", "d"⟩
    [cd, ab].Perm [ab, cd] ∧
      ((knownScore ⟨[ab, cd]⟩ [] l 0.25 .perRound).map fun r =>
        (r.2.rounds.head?.bind List.head?).bind (·.ours)) = .ok (some ab) ∧
      ((knownScore ⟨[cd, ab]⟩ [] l 0.25 .perRound).map fun r =>
        (r.2.rounds.head?.bind List.head?).bind (·.ours)) = .ok (some cd) := by
  intro l ab cd
  have hl : l.blender.bounds.lower ≤ l.blender.bounds.upper := by decide
  have hc : l.candidates = ∅ := rfl
  have hm : l.matchups = ∅ := rfl
  have first : ∀ pairing : Pairing, ((knownScore pairing [] l 0.25 .perRound).map fun r =>
      (r.2.rounds.head?.bind List.head?).bind (·.ours)) = (buildSchedule l pairing []).map fun s =>
        (s.rounds.head?.bind List.head?).bind (·.ours) := fun pairing => by
    rw [← knownScore_map_schedule hl pairing [] 0.25 .perRound]
    cases knownScore pairing [] l 0.25 .perRound <;> rfl
  have tied : ∀ (v : SlotView) (p : Pair) (e : WinEstimate), v.found l p = some e →
      totalKey e.probability = totalKey neutralProbability := by
    intro v p e he
    rw [SlotView.found_of_no_statistics hc hm] at he
    split at he
    · rw [← Option.some.inj he]
      rfl
    · exact absurd he nofun
  refine ⟨by decide, ?_, ?_⟩ <;>
  · rw [first, buildSchedule_eq hl]
    simp only [mergeSort_roundCandidateList_of_tied tied]
    simp only [roundCandidateList, slotCandidateList, SlotView.found_of_no_statistics hc hm, l,
      StatsLookup.gender_ofBundle]
    rfl

end DoublesLineup
