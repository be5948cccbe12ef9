import DoublesLineup.Proofs.Search.Climb
/-! # The neighbourhood of a pairing

A pass of the climb scores the partner swaps between every two pairs of the current pairing,
uncrossed and crossed. Take a pairing as the program builds them: each pair with its smaller
player first, and no player in two pairs (`Pairing.WellFormed`). A swap between two different
pairs of it never faults, keeps every other pair in its place, and puts at the two positions
another perfect matching of their four players. Four players have three perfect matchings, and
`matchings` lists them as the two pairs themselves, the uncrossed regrouping and the crossed one
(`Pair.matchings_regroup`): the two swaps are the two other matchings, and they differ.

A swap keeps the members of the pairing, so it keeps the pairing well formed and keeps every
roster the pairing splits. The pairings one swap away are exactly those that re-partner the
players of two pairs (`Pairing.Repartnering`), so the climb's neighbourhood is the whole of that
move and nothing else (`Pairing.swapsRepartner_of_wellFormed`).
-/

namespace DoublesLineup

namespace Pair

theorem of_low_high {q : Pair} (h : q.Ordered) : of q.low q.high = q := by
  have hlt : q.low < q.high := h
  rw [of, if_pos hlt]

theorem mem_players_of {x y z : PlayerId} : z ∈ (of x y).players ↔ z = x ∨ z = y := by
  rw [(players_of_perm x y).mem_iff]
  simp

theorem nodup_players {q : Pair} (h : q.Ordered) : q.players.Nodup := by
  simp [players, ne_of_lt h]

theorem low_mem_regroup (x y : Pair) (cross : Bool) : x.low ∈ (regroup x y cross).1.players := by
  cases cross <;> simp [regroup, mem_players_of]

theorem matchings_four {a b c d : PlayerId} (h : [a, b, c, d].Nodup) :
    matchings [a, b, c, d] =
      .ok [[of a b, of c d], [of a c, of b d], [of a d, of b c]] := by
  have hnil : matchings [] = .ok [[]] := by rw [matchings]
  simp only [List.nodup_cons, List.mem_cons, List.not_mem_nil, not_or] at h
  simp [matchings_cons, picks, make_eq_ok, h, hnil]

theorem matchings_regroup {x y : Pair} (hx : x.Ordered) (hy : y.Ordered)
    (h : (x.players ++ y.players).Nodup) :
    matchings (x.players ++ y.players) =
      .ok [[x, y], [(regroup x y false).1, (regroup x y false).2],
        [(regroup x y true).1, (regroup x y true).2]] := by
  have hfour : x.players ++ y.players = [x.low, x.high, y.low, y.high] := rfl
  rw [hfour] at h ⊢
  rw [matchings_four h, of_low_high hx, of_low_high hy]
  rfl

theorem regroup_mem (x y : Pair) (cross : Bool) :
    [(regroup x y cross).1, (regroup x y cross).2] ∈
      [[x, y], [(regroup x y false).1, (regroup x y false).2],
        [(regroup x y true).1, (regroup x y true).2]] := by
  cases cross <;> simp

theorem matchingsSpec_regroup {x y : Pair} (hx : x.Ordered) (hy : y.Ordered)
    (h : (x.players ++ y.players).Nodup) :
    MatchingsSpec (x.players ++ y.players)
      [[x, y], [(regroup x y false).1, (regroup x y false).2],
        [(regroup x y true).1, (regroup x y true).2]] := by
  obtain ⟨ms, hms, hspec⟩ := matchings_spec h
  rw [matchings_regroup hx hy h] at hms
  cases hms
  exact hspec

theorem regroup_not_samePairs {x y : Pair} (hx : x.Ordered) (hy : y.Ordered)
    (h : (x.players ++ y.players).Nodup) (cross : Bool) :
    ¬SamePairs [(regroup x y cross).1, (regroup x y cross).2] [x, y] := by
  have hdistinct := (matchingsSpec_regroup hx hy h).distinct
  simp only [List.pairwise_cons, List.mem_cons, List.not_mem_nil, or_false, forall_eq_or_imp,
    forall_eq] at hdistinct
  cases cross
  · exact fun hsame => hdistinct.1.1 hsame.symm
  · exact fun hsame => hdistinct.1.2 hsame.symm

theorem not_mem_of_nodup {l r : Pair} (h : ([l, r].flatMap players).Nodup) {z : PlayerId}
    (hz : z ∈ l.players) : z ∉ r.players := by
  simp only [List.flatMap_cons, List.flatMap_nil, List.append_nil] at h
  exact fun hr => (List.nodup_append.mp h).2.2 z hz z hr rfl

theorem eq_of_samePairs {l r l' r' : Pair} (h : SamePairs [l, r] [l', r']) {z : PlayerId}
    (hz : z ∈ l.players) (hr : z ∉ r.players) (hz' : z ∈ l'.players)
    (hr' : z ∉ r'.players) : l = l' ∧ r = r' := by
  have hl : l ∈ [l', r'] := (h l).mp List.mem_cons_self
  have hr'' : r ∈ [l', r'] := (h r).mp (List.mem_cons_of_mem _ List.mem_cons_self)
  simp only [List.mem_cons, List.not_mem_nil, or_false] at hl hr''
  rcases hl with rfl | rfl
  · rcases hr'' with rfl | rfl
    · exact absurd hz hr
    · exact ⟨rfl, rfl⟩
  · exact absurd hz hr'

end Pair

namespace Pairing

/-- A pairing as the program builds them: each pair has its smaller player first, as
`Pair.make` makes it, and no two pairs share a player. -/
structure WellFormed (p : Pairing) : Prop where
  ordered : ∀ q ∈ p.pairs, q.Ordered
  disjoint : p.pairs.Pairwise fun q r => q.players.Disjoint r.players

variable {p : Pairing}

theorem WellFormed.nodup (hp : p.WellFormed) : p.members.Nodup :=
  List.nodup_flatMap.mpr ⟨fun q hq => Pair.nodup_players (hp.ordered q hq), hp.disjoint⟩

theorem WellFormed.of_nodup (hordered : ∀ q ∈ p.pairs, q.Ordered) (h : p.members.Nodup) :
    p.WellFormed :=
  ⟨hordered, (List.nodup_flatMap.mp h).2⟩

theorem WellFormed.nodup_players_append (hp : p.WellFormed) {i j : Nat}
    (hi : i < p.pairs.length) (hj : j < p.pairs.length) (hij : i ≠ j) :
    (p.pairs[i].players ++ p.pairs[j].players).Nodup := by
  have hdisjoint : p.pairs[i].players.Disjoint p.pairs[j].players := by
    rcases Nat.lt_or_gt_of_ne hij with hlt | hgt
    · exact List.pairwise_iff_getElem.mp hp.disjoint i j hi hj hlt
    · exact (List.pairwise_iff_getElem.mp hp.disjoint j i hj hi hgt).symm
  refine List.nodup_append.mpr ⟨Pair.nodup_players (hp.ordered _ (List.getElem_mem hi)),
    Pair.nodup_players (hp.ordered _ (List.getElem_mem hj)), ?_⟩
  rintro u hu v hv rfl
  exact hdisjoint hu hv

theorem lt_of_pairAt_eq_ok {i : Nat} {x : Pair} (h : p.pairAt i = .ok x) :
    i < p.pairs.length := by
  unfold pairAt at h
  split at h
  · rename_i hx
    exact (List.getElem?_eq_some_iff.mp hx).1
  · cases h

theorem lt_of_swapPartners_eq_ok {i j : Nat} {cross : Bool} {q : Pairing}
    (h : p.swapPartners i j cross = .ok q) : i < p.pairs.length ∧ j < p.pairs.length := by
  simp only [swapPartners, bind_eq_ok] at h
  obtain ⟨x, hx, y, hy, -⟩ := h
  exact ⟨lt_of_pairAt_eq_ok hx, lt_of_pairAt_eq_ok hy⟩

theorem members_set_set_perm_of_ne {i j : Nat} (hi : i < p.pairs.length)
    (hj : j < p.pairs.length) (hij : i ≠ j) {l r : Pair}
    (h : (l.players ++ r.players).Perm (p.pairs[i].players ++ p.pairs[j].players)) :
    (Pairing.mk ((p.pairs.set i l).set j r)).members.Perm p.members := by
  rcases Nat.lt_or_gt_of_ne hij with hlt | hgt
  · exact members_set_set_perm hlt hj h
  · -- the later position is replaced first, so the two replacements commute
    rw [List.set_comm _ _ hij]
    exact members_set_set_perm hgt hi (List.perm_append_comm.trans (h.trans List.perm_append_comm))

theorem WellFormed.set_set (hp : p.WellFormed) {i j : Nat} (hi : i < p.pairs.length)
    (hj : j < p.pairs.length) (hij : i ≠ j) {l r : Pair} (hl : l.Ordered) (hr : r.Ordered)
    (h : (l.players ++ r.players).Perm (p.pairs[i].players ++ p.pairs[j].players)) :
    (Pairing.mk ((p.pairs.set i l).set j r)).WellFormed ∧
      (Pairing.mk ((p.pairs.set i l).set j r)).members.Perm p.members := by
  have hperm := members_set_set_perm_of_ne hi hj hij h
  refine ⟨WellFormed.of_nodup ?_ (hperm.nodup_iff.mpr hp.nodup), hperm⟩
  intro q hq
  rcases List.mem_or_eq_of_mem_set hq with hq | rfl
  · rcases List.mem_or_eq_of_mem_set hq with hq | rfl
    · exact hp.ordered q hq
    · exact hl
  · exact hr

/-- `q` re-partners the players of two pairs of `p`: at two positions `i < j` the pairs of `p`
give way to another perfect matching of their four players, the pair holding the smaller player
of the pair at `i` taking that pair's place, and every other pair stays where it is. -/
def Repartnering (p q : Pairing) : Prop :=
  ∃ i j l r, ∃ (hi : i < p.pairs.length) (hj : j < p.pairs.length), i < j ∧
    q.pairs = (p.pairs.set i l).set j r ∧
    ([l, r].flatMap Pair.players).Perm (p.pairs[i].players ++ p.pairs[j].players) ∧
    (∀ s ∈ [l, r], s.Ordered) ∧ ¬SamePairs [l, r] [p.pairs[i], p.pairs[j]] ∧
    p.pairs[i].low ∈ l.players

theorem WellFormed.matchingsSpec (hp : p.WellFormed) {i j : Nat} (hi : i < p.pairs.length)
    (hj : j < p.pairs.length) (hij : i ≠ j) :
    MatchingsSpec (p.pairs[i].players ++ p.pairs[j].players)
      [[p.pairs[i], p.pairs[j]],
        [(Pair.regroup p.pairs[i] p.pairs[j] false).1,
          (Pair.regroup p.pairs[i] p.pairs[j] false).2],
        [(Pair.regroup p.pairs[i] p.pairs[j] true).1,
          (Pair.regroup p.pairs[i] p.pairs[j] true).2]] :=
  Pair.matchingsSpec_regroup (hp.ordered _ (List.getElem_mem hi))
    (hp.ordered _ (List.getElem_mem hj)) (hp.nodup_players_append hi hj hij)

/-- The pairings one swap away from a well-formed pairing, over the swaps a pass scores, are
exactly its re-partnerings of two pairs. -/
theorem swapPartners_neighbour_iff (hp : p.WellFormed) (q : Pairing) :
    (∃ m ∈ swapMoves p.size, p.swapPartners m.1 m.2.1 m.2.2 = .ok q) ↔ p.Repartnering q := by
  constructor
  · rintro ⟨⟨i, j, cross⟩, hm, hq⟩
    obtain ⟨hij, hj⟩ := mem_swapMoves hm
    have hi : i < p.pairs.length := by unfold size at hj; omega
    have hF := hp.nodup_players_append hi hj (Nat.ne_of_lt hij)
    have hspec := hp.matchingsSpec hi hj (Nat.ne_of_lt hij)
    have hmem := Pair.regroup_mem p.pairs[i] p.pairs[j] cross
    rw [swapPartners_eq hi hj hF] at hq
    cases hq
    exact ⟨i, j, _, _, hi, hj, hij, rfl, hspec.perm _ hmem, hspec.ordered _ hmem,
      Pair.regroup_not_samePairs (hp.ordered _ (List.getElem_mem hi))
        (hp.ordered _ (List.getElem_mem hj)) hF cross,
      Pair.low_mem_regroup _ _ cross⟩
  · rintro ⟨i, j, l, r, hi, hj, hij, hq, hperm, hord, hnew, hlow⟩
    have hF := hp.nodup_players_append hi hj (Nat.ne_of_lt hij)
    have hspec := hp.matchingsSpec hi hj (Nat.ne_of_lt hij)
    -- `[l, r]` holds the pairs of one of the three matchings, not of the two pairs themselves
    obtain ⟨m, hm, hsame⟩ := hspec.complete [l, r] hperm hord
    obtain ⟨cross, rfl⟩ : ∃ cross, m = [(Pair.regroup p.pairs[i] p.pairs[j] cross).1,
        (Pair.regroup p.pairs[i] p.pairs[j] cross).2] := by
      simp only [List.mem_cons, List.not_mem_nil, or_false] at hm
      rcases hm with rfl | rfl | rfl
      · exact absurd hsame.symm hnew
      · exact ⟨false, rfl⟩
      · exact ⟨true, rfl⟩
    have hregroup := (hspec.perm _ (Pair.regroup_mem _ _ cross)).nodup_iff.mpr hF
    obtain ⟨rfl, rfl⟩ := Pair.eq_of_samePairs hsame.symm hlow
      (Pair.not_mem_of_nodup (hperm.nodup_iff.mpr hF) hlow) (Pair.low_mem_regroup _ _ cross)
      (Pair.not_mem_of_nodup hregroup (Pair.low_mem_regroup _ _ cross))
    refine ⟨(i, j, cross), mem_swapMoves_of_lt cross hij hj, ?_⟩
    rw [swapPartners_eq hi hj hF, ← hq]

/-- What the partner swaps of a pairing `p` do. A swap between two different pairs succeeds and
keeps every other pair in its place; with the two pairs themselves, the uncrossed and the
crossed swap give the perfect matchings of their four players, each once. A swap keeps the
pairing well formed and keeps every roster it splits. The pairings one swap away, over the
swaps a pass scores, are exactly the re-partnerings of two of its pairs. -/
structure SwapsRepartner (p : Pairing) : Prop where
  regroups : ∀ i j (hi : i < p.pairs.length) (hj : j < p.pairs.length), i ≠ j →
    ∃ l r l' r' : Pair,
      p.swapPartners i j false = .ok ⟨(p.pairs.set i l).set j r⟩ ∧
      p.swapPartners i j true = .ok ⟨(p.pairs.set i l').set j r'⟩ ∧
      MatchingsSpec (p.pairs[i].players ++ p.pairs[j].players)
        [[p.pairs[i], p.pairs[j]], [l, r], [l', r']]
  keeps : ∀ i j cross q, i ≠ j → p.swapPartners i j cross = .ok q →
    q.WellFormed ∧ ∀ roster, p.partitions roster = true → q.partitions roster = true
  neighbourhood : ∀ q,
    (∃ m ∈ swapMoves p.size, p.swapPartners m.1 m.2.1 m.2.2 = .ok q) ↔ p.Repartnering q

theorem swapsRepartner_of_wellFormed (hp : p.WellFormed) : p.SwapsRepartner where
  regroups i j hi hj hij :=
    have hF := hp.nodup_players_append hi hj hij
    ⟨_, _, _, _, swapPartners_eq hi hj hF false, swapPartners_eq hi hj hF true,
      hp.matchingsSpec hi hj hij⟩
  keeps i j cross q hij hq := by
    obtain ⟨hi, hj⟩ := lt_of_swapPartners_eq_ok hq
    rw [swapPartners_eq hi hj (hp.nodup_players_append hi hj hij)] at hq
    cases hq
    have hordered := (hp.matchingsSpec hi hj hij).ordered _ (Pair.regroup_mem _ _ cross)
    obtain ⟨hwf, hmembers⟩ := hp.set_set hi hj hij (hordered _ List.mem_cons_self)
      (hordered _ (List.mem_cons_of_mem _ List.mem_cons_self))
      (Pair.players_regroup_perm _ _ cross)
    exact ⟨hwf, fun roster h => partitions_of_perm hwf.nodup hmembers h⟩
  neighbourhood := swapPartners_neighbour_iff hp

/-- The laws at a pairing of three pairs, where regrouping reorders the players of a pair. -/
theorem swapsRepartner_three_pairs :
    Pairing.WellFormed ⟨[⟨"a", "d"⟩, ⟨"b", "e"⟩, ⟨"c", "f"⟩]⟩ ∧
      Pairing.SwapsRepartner ⟨[⟨"a", "d"⟩, ⟨"b", "e"⟩, ⟨"c", "f"⟩]⟩ :=
  have hp : Pairing.WellFormed ⟨[⟨"a", "d"⟩, ⟨"b", "e"⟩, ⟨"c", "f"⟩]⟩ :=
    WellFormed.of_nodup (by simp only [Pair.Ordered]; decide) (by decide)
  ⟨hp, swapsRepartner_of_wellFormed hp⟩

end Pairing

end DoublesLineup
