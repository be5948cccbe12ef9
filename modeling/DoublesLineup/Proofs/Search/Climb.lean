import Mathlib.Algebra.BigOperators.Group.List.Basic
import DoublesLineup.Search.Climb
import DoublesLineup.Proofs.Roster.Matching
import DoublesLineup.Proofs.Score.Order
/-! # What a search keeps

A search moves only between pairings of its roster. A random pairing partners off a shuffle of
the roster, and a partner swap between two pairs rearranges their four players, so every
pairing met has the roster's players as its members (`swapPartners_ok`, `randomPairing_ok`).
With players that differ, no pair is ever made of one player, and with a generator whose draws
stay below their limit (as Wyrand's do, `Wyrand.drawsBelow`) no swap of the shuffle leaves the
array, so the search never faults.

A pass examines `m (m - 1)` swaps of a pairing of `m` pairs (`length_swapMoves`) and scores
each; a climb makes at most one pass per permitted pass, and a restart scores its random
pairing once more. The pool keeps one entry per identifier (`Pool.Inv`), and grows only. Ranked
by the objective after being ordered by identifier, the pool gives a ranking in which no entry
is followed by a better one and entries that tie come in the order of their identifiers
(`searchPairings_spec`).
-/

namespace DoublesLineup

theorem Pair.low_mem (q : Pair) : q.low ∈ q.players := List.mem_cons_self

theorem Pair.high_mem (q : Pair) : q.high ∈ q.players := List.mem_cons_of_mem _ List.mem_cons_self

/-- The two pairs a partner swap makes of the players of `x` and `y`: the smaller players
together and the larger together or, crossed, each smaller player with the other's larger. -/
def Pair.regroup (x y : Pair) (cross : Bool) : Pair × Pair :=
  if cross then (Pair.of x.low y.high, Pair.of x.high y.low)
  else (Pair.of x.low y.low, Pair.of x.high y.high)

theorem Pair.players_regroup_perm (x y : Pair) (cross : Bool) :
    ((Pair.regroup x y cross).1.players ++ (Pair.regroup x y cross).2.players).Perm
      (x.players ++ y.players) := by
  cases cross <;>
  · refine ((Pair.players_of_perm _ _).append (Pair.players_of_perm _ _)).trans ?_
    rw [List.perm_iff_count]
    intro z
    simp only [Pair.players, List.cons_append, List.nil_append, List.count_cons, List.count_nil]
    omega

namespace Pairing

theorem count_members_set (z : PlayerId) :
    ∀ (ps : List Pair) (i : Nat) (hi : i < ps.length) (a : Pair),
      ((ps.set i a).flatMap Pair.players).count z + ps[i].players.count z =
        (ps.flatMap Pair.players).count z + a.players.count z
  | q :: ps, 0, _, a => by
    simp only [List.set_cons_zero, List.flatMap_cons, List.count_append, List.getElem_cons_zero]
    omega
  | q :: ps, i + 1, hi, a => by
    have ih := count_members_set z ps i (by simpa using hi) a
    simp only [List.set_cons_succ, List.flatMap_cons, List.count_append,
      List.getElem_cons_succ]
    omega

theorem swapPartners_eq {p : Pairing} {i j : Nat} (hi : i < p.pairs.length)
    (hj : j < p.pairs.length) (h : (p.pairs[i].players ++ p.pairs[j].players).Nodup)
    (cross : Bool) :
    p.swapPartners i j cross =
      .ok ⟨(p.pairs.set i (Pair.regroup p.pairs[i] p.pairs[j] cross).1).set j
        (Pair.regroup p.pairs[i] p.pairs[j] cross).2⟩ := by
  have hne : ∀ u ∈ p.pairs[i].players, ∀ v ∈ p.pairs[j].players, u ≠ v :=
    (List.nodup_append.mp h).2.2
  have hx := p.pairs[i].low_mem
  have hx' := p.pairs[i].high_mem
  have hy := p.pairs[j].low_mem
  have hy' := p.pairs[j].high_mem
  unfold swapPartners
  rw [pairAt_of_lt hi, pairAt_of_lt hj]
  cases cross with
  | false =>
    simp [Pair.make_eq_ok (hne _ hx _ hy), Pair.make_eq_ok (hne _ hx' _ hy'), Pair.regroup]
  | true =>
    simp [Pair.make_eq_ok (hne _ hx _ hy'), Pair.make_eq_ok (hne _ hx' _ hy), Pair.regroup]

section

variable {p : Pairing} {first second : Nat} (hlt : first < second)
  (hsecond : second < p.pairs.length)
include hlt hsecond

theorem members_set_set_perm {left right : Pair}
    (h : (left.players ++ right.players).Perm
      (p.pairs[first].players ++ p.pairs[second].players)) :
    (Pairing.mk ((p.pairs.set first left).set second right)).members.Perm p.members := by
  have hfirst : first < p.pairs.length := by omega
  have hsecond' : second < (p.pairs.set first left).length := by simpa using hsecond
  have hget : (p.pairs.set first left)[second] = p.pairs[second] :=
    List.getElem_set_ne (Nat.ne_of_lt hlt) hsecond'
  rw [List.perm_iff_count] at h ⊢
  intro z
  have hz := h z
  have h₁ := count_members_set z p.pairs first hfirst left
  have h₂ := count_members_set z (p.pairs.set first left) second hsecond' right
  rw [hget] at h₂
  simp only [List.count_append] at hz
  simp only [members]
  omega

theorem players_ne (hnodup : p.members.Nodup) :
    ∀ u ∈ p.pairs[first].players, ∀ v ∈ p.pairs[second].players, u ≠ v := by
  have hdisj : p.pairs[first].players.Disjoint p.pairs[second].players :=
    List.pairwise_iff_getElem.mp (List.nodup_flatMap.mp hnodup).2 first second (by omega)
      hsecond hlt
  intro u hu v hv h
  exact hdisj hu (h ▸ hv)

/-- Swapping partners between two pairs of a pairing whose members differ makes pairs of two
different players, and keeps the members. -/
theorem swapPartners_ok (hnodup : p.members.Nodup) (cross : Bool) :
    ∃ p', p.swapPartners first second cross = .ok p' ∧ p'.members.Perm p.members := by
  have hfirst : first < p.pairs.length := by omega
  have hpairs := (List.nodup_flatMap.mp hnodup).1
  have hfour : (p.pairs[first].players ++ p.pairs[second].players).Nodup :=
    List.nodup_append.mpr ⟨hpairs _ (List.getElem_mem hfirst),
      hpairs _ (List.getElem_mem hsecond), players_ne hlt hsecond hnodup⟩
  exact ⟨_, swapPartners_eq hfirst hsecond hfour cross,
    members_set_set_perm hlt hsecond (Pair.players_regroup_perm _ _ cross)⟩

end

end Pairing

/-! ### The swaps of a pass -/

theorem length_filter_lt_range (f : Nat) :
    ∀ n, ((List.range n).filter (f < ·)).length = n - 1 - f
  | 0 => by simp
  | n + 1 => by
    rw [List.range_succ, List.filter_append, List.length_append, length_filter_lt_range f n]
    by_cases h : f < n
    · simp [h]
      omega
    · simp [h]
      omega

theorem sum_range_pairs : ∀ n, ((List.range n).map fun f => 2 * (n - 1 - f)).sum = n * (n - 1)
  | 0 => rfl
  | n + 1 => by
    have hshift : ∀ f ∈ List.range n, 2 * (n + 1 - 1 - (f + 1)) = 2 * (n - 1 - f) := by
      intro f _
      omega
    rw [List.range_succ_eq_map, List.map_cons, List.sum_cons, List.map_map, Function.comp_def,
      List.map_congr_left hshift, sum_range_pairs n]
    rcases n with _ | n
    · rfl
    · simp
      ring

theorem length_swapMoves (size : Nat) : (swapMoves size).length = size * (size - 1) := by
  unfold swapMoves
  rw [List.length_flatMap]
  have hinner : ∀ first ∈ List.range size,
      (((List.range size).filter (first < ·)).flatMap fun second =>
        [(first, second, false), (first, second, true)]).length = 2 * (size - 1 - first) := by
    intro first _
    rw [List.length_flatMap]
    simp only [List.length_cons, List.length_nil, List.map_const', List.sum_replicate_nat,
      length_filter_lt_range]
    omega
  rw [List.map_congr_left hinner, sum_range_pairs]

theorem mem_swapMoves {size first second : Nat} {cross : Bool}
    (h : (first, second, cross) ∈ swapMoves size) : first < second ∧ second < size := by
  simp only [swapMoves, List.mem_flatMap, List.mem_range, List.mem_filter, decide_eq_true_eq,
    List.mem_cons, List.mem_nil_iff, or_false, Prod.mk.injEq] at h
  obtain ⟨f, -, s, ⟨hs, hfs⟩, h⟩ := h
  rcases h with ⟨rfl, rfl, -⟩ | ⟨rfl, rfl, -⟩ <;> exact ⟨hfs, hs⟩

theorem mem_swapMoves_of_lt {size first second : Nat} (cross : Bool) (hlt : first < second)
    (hsecond : second < size) : (first, second, cross) ∈ swapMoves size := by
  simp only [swapMoves, List.mem_flatMap, List.mem_range, List.mem_filter, decide_eq_true_eq,
    List.mem_cons, List.mem_nil_iff, or_false, Prod.mk.injEq]
  refine ⟨first, by omega, second, ⟨hsecond, hlt⟩, ?_⟩
  cases cross <;> simp

/-! ### Random pairings -/

theorem swapChecked_eq {α : Type} {a : Array α} {i j : Nat} (hi : i < a.size) (hj : j < a.size) :
    swapChecked a i j = .ok (a.swap i j hi hj) := by
  simp [swapChecked, hi, hj]

section Shuffle

variable {γ : Type} {G : Generator γ} (hG : G.DrawsBelow)
include hG

/-- A shuffle step at a position of the array swaps it with a drawn position, which the draw
keeps in the array. -/
theorem shuffleStep_ok {acc : Array PlayerId × γ} {index : Nat} (h : index < acc.1.size) :
    ∃ acc', shuffleStep G acc index = .ok acc' ∧ acc'.1.size = acc.1.size ∧
      acc'.1.toList.Perm acc.1.toList := by
  have hdraw : (G.below acc.2 (index + 1)).1 < acc.1.size :=
    lt_of_lt_of_le (hG acc.2 (index + 1) (Nat.succ_pos index)) h
  refine ⟨(acc.1.swap index _ h hdraw, (G.below acc.2 (index + 1)).2), ?_, by simp, ?_⟩
  · simp only [shuffleStep, swapChecked_eq h hdraw, ok_bind]
    rfl
  · exact Array.perm_iff_toList_perm.mp (Array.swap_perm _ _)

theorem shuffle_ok (players : List PlayerId) (g : γ) :
    ∃ shuffled g', shuffle G players g = .ok (shuffled, g') ∧ shuffled.Perm players := by
  -- every step swaps positions below the roster's length, so the array keeps its size
  have hfold : ∃ acc, (List.range (players.length - 1)).foldlM
      (fun acc k => shuffleStep G acc (players.length - 1 - k)) (players.toArray, g) = .ok acc ∧
      acc.1.size = players.length ∧ acc.1.toList.Perm players := by
    refine foldlM_ok_of_step (fun acc : Array PlayerId × γ =>
      acc.1.size = players.length ∧ acc.1.toList.Perm players) ⟨by simp, by simp⟩ ?_
    rintro acc k hk ⟨hsize, hperm⟩
    have hindex : players.length - 1 - k < acc.1.size := by
      have hk' := List.mem_range.mp hk
      rw [hsize]
      omega
    obtain ⟨acc', hstep, hsize', hperm'⟩ := shuffleStep_ok hG hindex
    exact ⟨acc', hstep, hsize'.trans hsize, hperm'.trans hperm⟩
  obtain ⟨acc, hacc, -, hperm⟩ := hfold
  refine ⟨acc.1.toList, acc.2, ?_, hperm⟩
  simp only [shuffle, hacc, ok_bind]
  rfl

end Shuffle

theorem partnerOff_ok : ∀ {xs : List PlayerId}, xs.Nodup → xs.length % 2 = 0 →
    ∃ ps, partnerOff xs = .ok ps ∧ (ps.flatMap Pair.players).Perm xs
  | [], _, _ => ⟨[], rfl, List.Perm.refl _⟩
  | [_], _, heven => by simp at heven
  | a :: b :: rest, hnodup, heven => by
    have hab : a ≠ b := fun h => (List.nodup_cons.mp hnodup).1 (h ▸ List.mem_cons_self)
    have hrest : rest.Nodup := (List.nodup_cons.mp (List.nodup_cons.mp hnodup).2).2
    obtain ⟨ps, hps, hperm⟩ := partnerOff_ok hrest (by simp at heven; omega)
    refine ⟨Pair.of a b :: ps, ?_, ?_⟩
    · simp only [partnerOff, Pair.make_eq_ok hab, hps, ok_bind]
      rfl
    · rw [List.flatMap_cons]
      exact (Pair.players_of_perm a b).append hperm

theorem randomPairing_ok {γ : Type} {G : Generator γ} (hG : G.DrawsBelow)
    {players : List PlayerId} (hnodup : players.Nodup) (heven : players.length % 2 = 0) (g : γ) :
    ∃ p g', randomPairing G players g = .ok (p, g') ∧ p.members.Perm players := by
  obtain ⟨shuffled, g', hsh, hperm⟩ := shuffle_ok hG players g
  obtain ⟨ps, hps, hmembers⟩ :=
    partnerOff_ok (hperm.nodup_iff.mpr hnodup) (hperm.length_eq ▸ heven)
  refine ⟨⟨ps⟩, g', ?_, hmembers.trans hperm⟩
  simp only [randomPairing, hsh, hps, ok_bind]
  rfl

/-! ### Wyrand's draws -/

/-- A draw is the high word of an output times the limit: an output times the limit, over
`2 ^ 64`. -/
theorem Wyrand.high_lt (x : UInt64) {limit : Nat} (hlimit : 0 < limit) :
    x.toNat * limit / Nat.pow 2 64 < limit :=
  Nat.div_lt_of_lt_mul (Nat.mul_lt_mul_of_pos_right (UInt64.toNat_lt x) hlimit)

theorem Wyrand.redraw_lt {limit : Nat} (hlimit : 0 < limit) (cutoff : Nat) :
    ∀ (fuel : Nat) (g : Wyrand), (Wyrand.redraw limit cutoff fuel g).1 < limit
  | 0, _ => hlimit
  | fuel + 1, g => by
    unfold Wyrand.redraw
    dsimp only
    split
    · exact Wyrand.redraw_lt hlimit cutoff fuel _
    · exact Wyrand.high_lt _ hlimit

theorem Wyrand.drawsBelow : Wyrand.generator.DrawsBelow := by
  intro g limit hlimit
  show (Wyrand.below g limit).1 < limit
  unfold Wyrand.below
  dsimp only
  split
  · split
    · exact Wyrand.redraw_lt hlimit _ 128 _
    · exact Wyrand.high_lt _ hlimit
  · exact Wyrand.high_lt _ hlimit

/-! ### A pass and a climb -/

section

variable {players : List PlayerId} (objective : Objective)
  {evaluate : Pairing → Except Fault ScoredPairing}

theorem size_of_perm {p : Pairing} (h : p.members.Perm players) :
    p.size = players.length / 2 := by
  have hlen := h.length_eq
  rw [Pairing.members, Pairing.length_flatMap_players] at hlen
  unfold Pairing.size
  omega

theorem passStep_ok (hevaluate : ∀ p, ∃ s, evaluate p = .ok s ∧ s.pairing = p)
    {current : ScoredPairing} (hnodup : current.pairing.members.Nodup)
    {acc : Option ScoredPairing × Nat} {move : Nat × Nat × Bool}
    (hmove : move ∈ swapMoves current.pairing.size)
    (hacc : ∀ next, acc.1 = some next → next.pairing.members.Perm current.pairing.members) :
    ∃ acc', passStep objective evaluate current acc move = .ok acc' ∧
      (∀ next, acc'.1 = some next → next.pairing.members.Perm current.pairing.members) ∧
      acc'.2 = acc.2 + 1 := by
  obtain ⟨first, second, cross⟩ := move
  obtain ⟨hlt, hsecond⟩ := mem_swapMoves hmove
  obtain ⟨p', hswap, hperm⟩ := Pairing.swapPartners_ok hlt hsecond hnodup cross
  obtain ⟨s, hs, rfl⟩ := hevaluate p'
  refine ⟨_, by simp only [passStep, hswap, hs, ok_bind]; rfl, ?_, rfl⟩
  intro next hnext
  dsimp only at hnext
  split at hnext
  · cases hnext
    exact hperm
  · exact hacc next hnext

theorem bestNeighbour_spec (hevaluate : ∀ p, ∃ s, evaluate p = .ok s ∧ s.pairing = p)
    {current : ScoredPairing} (hnodup : current.pairing.members.Nodup) :
    ∃ best, bestNeighbour objective evaluate current =
        .ok (best, current.pairing.size * (current.pairing.size - 1)) ∧
      ∀ next, best = some next → next.pairing.members.Perm current.pairing.members := by
  obtain ⟨⟨best, count⟩, hfold, hbest, hcount⟩ :=
    foldlM_ok_counting (f := passStep objective evaluate current) (b := (none, 0))
      (fun acc => ∀ next, acc.1 = some next → next.pairing.members.Perm current.pairing.members)
      (·.2) (by simp) fun acc move hmove hacc => passStep_ok objective hevaluate hnodup hmove hacc
  have hcount' : count = current.pairing.size * (current.pairing.size - 1) := by
    simpa [length_swapMoves] using hcount
  refine ⟨best, ?_, hbest⟩
  rw [bestNeighbour, hfold, hcount']

end

/-! ### The pool -/

namespace Pool

/-- What the pool keeps: its set of identifiers is that of its entries, each entry is filed once
and under its own identifier, and every pooled pairing has the roster as its members. -/
structure Inv {η : Type} (H : Hasher η) (players : List PlayerId) (p : Pool) : Prop where
  seen : ∀ id, p.seen.contains id = true ↔ id ∈ p.entries.map Prod.fst
  nodup : (p.entries.map Prod.fst).Nodup
  keyed : ∀ e ∈ p.entries, e.1 = e.2.id H
  members : ∀ e ∈ p.entries, e.2.pairing.members.Perm players

variable {η : Type} {H : Hasher η} {players : List PlayerId}

theorem inv_empty (H : Hasher η) (players : List PlayerId) : ({} : Pool).Inv H players where
  seen id := by simp
  nodup := List.nodup_nil
  keyed := by simp
  members := by simp

theorem Inv.add {p : Pool} (h : p.Inv H players) {s : ScoredPairing}
    (hs : s.pairing.members.Perm players) : (p.add H s).Inv H players := by
  simp only [Pool.add]
  split
  · exact h
  · rename_i hnew
    refine ⟨fun id => ?_, ?_, ?_, ?_⟩
    · rw [Std.HashSet.contains_insert, Bool.or_eq_true, h.seen, beq_iff_eq, List.map_cons,
        List.mem_cons]
      exact or_congr eq_comm Iff.rfl
    · exact List.nodup_cons.mpr ⟨fun hmem => hnew ((h.seen (s.id H)).mpr hmem), h.nodup⟩
    · intro e he
      rcases List.mem_cons.mp he with rfl | he
      · rfl
      · exact h.keyed e he
    · intro e he
      rcases List.mem_cons.mp he with rfl | he
      · exact hs
      · exact h.members e he

theorem suffix_add (H : Hasher η) (p : Pool) (s : ScoredPairing) :
    p.entries <:+ (p.add H s).entries := by
  simp only [Pool.add]
  split
  · exact List.suffix_refl _
  · exact List.suffix_cons _ _

theorem mem_add {p : Pool} (h : p.Inv H players) (s : ScoredPairing) :
    s.id H ∈ (p.add H s).entries.map Prod.fst := by
  simp only [Pool.add]
  split
  · rename_i hseen
    exact (h.seen (s.id H)).mp hseen
  · simp

theorem length_byId (p : Pool) : p.byId.length = p.entries.length := by
  simp [byId, List.length_mergeSort]

theorem Inv.perm_byId {p : Pool} (h : p.Inv H players) :
    (p.byId.map (ScoredPairing.id H)).Perm (p.entries.map Prod.fst) := by
  have hsorted := List.mergeSort_perm p.entries.reverse fun a b => decide (a.1 ≤ b.1)
  have hkeyed : ∀ e ∈ p.entries.reverse.mergeSort (fun a b => decide (a.1 ≤ b.1)),
      e.2.id H = e.1 := fun e he =>
    (h.keyed e (List.mem_reverse.mp (hsorted.mem_iff.mp he))).symm
  rw [byId, List.map_map, Function.comp_def, List.map_congr_left hkeyed]
  exact (hsorted.map Prod.fst).trans (List.Perm.map Prod.fst (List.reverse_perm _))

theorem Inv.mem_byId {p : Pool} (h : p.Inv H players) {s : ScoredPairing} (hs : s ∈ p.byId) :
    s.pairing.members.Perm players := by
  obtain ⟨e, he, rfl⟩ := List.mem_map.mp hs
  exact h.members e (List.mem_reverse.mp ((List.mergeSort_perm _ _).mem_iff.mp he))

theorem Inv.byId_sorted {p : Pool} (h : p.Inv H players) :
    p.byId.Pairwise fun a b => a.id H < b.id H := by
  have hle := @List.pairwise_mergeSort _ (fun a b : String × ScoredPairing => decide (a.1 ≤ b.1))
    (fun a b c hab hbc => by simpa using le_trans (by simpa using hab) (by simpa using hbc))
    (fun a b => by simpa using le_total a.1 b.1) p.entries.reverse
  have hne : (p.entries.reverse.mergeSort fun a b => decide (a.1 ≤ b.1)).Pairwise
      fun a b => a.1 ≠ b.1 := by
    have hnodup := ((List.mergeSort_perm p.entries.reverse fun a b => decide (a.1 ≤ b.1)).map
      Prod.fst).nodup_iff.mpr (by rw [List.map_reverse]; exact List.nodup_reverse.mpr h.nodup)
    exact List.pairwise_map.mp hnodup
  have hkeyed : ∀ e ∈ p.entries.reverse.mergeSort (fun a b => decide (a.1 ≤ b.1)),
      e.1 = e.2.id H := fun e he =>
    h.keyed e (List.mem_reverse.mp ((List.mergeSort_perm _ _).mem_iff.mp he))
  refine List.pairwise_map.mpr ((hle.and hne).imp_of_mem fun ha hb hab => ?_)
  rw [← hkeyed _ ha, ← hkeyed _ hb]
  exact lt_of_le_of_ne (by simpa using hab.1) hab.2

end Pool

/-! ### Climbs, restarts and the search -/

section

variable {η γ : Type} (H : Hasher η) {G : Generator γ} (hG : G.DrawsBelow)
  {players : List PlayerId} (objective : Objective) {evaluate : Pairing → Except Fault ScoredPairing}

/-- A climb from a pairing of the roster, over a pool that keeps its invariant, makes at most
`passes` passes of `m (m - 1)` evaluations each, for `m` pairs; it settles on a pairing of the
roster and keeps the invariant, and the pool only grows. -/
theorem climb_spec (hnodup : players.Nodup)
    (hevaluate : ∀ p, ∃ s, evaluate p = .ok s ∧ s.pairing = p) :
    ∀ (passes : Nat) (current : ScoredPairing) (st : SearchState γ),
      current.pairing.members.Perm players → st.pool.Inv H players →
      ∃ final st' made, climb H objective evaluate passes current st = .ok (final, st') ∧
        made ≤ passes ∧
        st'.evaluations =
          st.evaluations + made * (players.length / 2 * (players.length / 2 - 1)) ∧
        final.pairing.members.Perm players ∧ st'.pool.Inv H players ∧
        st.pool.entries <:+ st'.pool.entries
  | 0, current, st, hcurrent, hpool =>
    ⟨current, st, 0, rfl, le_refl 0, by simp, hcurrent, hpool, List.suffix_refl _⟩
  | passes + 1, current, st, hcurrent, hpool => by
    obtain ⟨best, hbest, hnext⟩ :=
      bestNeighbour_spec objective hevaluate (hcurrent.nodup_iff.mpr hnodup)
    rw [size_of_perm hcurrent] at hbest
    cases best with
    | none =>
      refine ⟨current, { st with evaluations := st.evaluations + players.length / 2 *
        (players.length / 2 - 1) }, 1, ?_, by omega, by simp, hcurrent, hpool,
        List.suffix_refl _⟩
      simp only [climb, hbest, ok_bind]
      rfl
    | some next =>
      obtain ⟨final, st', made, hclimb, hmade, hevals, hfinal, hpool', hsuffix⟩ :=
        climb_spec hnodup hevaluate passes next
          { st with evaluations := st.evaluations + players.length / 2 *
              (players.length / 2 - 1), moves := st.moves + 1, pool := st.pool.add H current }
          ((hnext next rfl).trans hcurrent) (hpool.add hcurrent)
      refine ⟨final, st', made + 1, ?_, by omega, ?_, hfinal, hpool',
        (Pool.suffix_add H _ _).trans hsuffix⟩
      · simp only [climb, hbest, ok_bind]
        exact hclimb
      · rw [hevals]
        ring

include hG in
theorem restart_spec (hnodup : players.Nodup) (heven : players.length % 2 = 0)
    (hevaluate : ∀ p, ∃ s, evaluate p = .ok s ∧ s.pairing = p) (config : SearchConfig)
    {st : SearchState γ} (hpool : st.pool.Inv H players) :
    ∃ final st' made, restart H G players config objective evaluate st = .ok (final, st') ∧
      made ≤ config.maxPasses ∧
      st'.evaluations =
        st.evaluations + (1 + made * (players.length / 2 * (players.length / 2 - 1))) ∧
      st'.pool.Inv H players ∧ st.pool.entries <:+ st'.pool.entries ∧
      final.id H ∈ st'.pool.entries.map Prod.fst := by
  obtain ⟨pairing, g, hrandom, hmembers⟩ := randomPairing_ok hG hnodup heven st.generator
  obtain ⟨current, hcurrent, rfl⟩ := hevaluate pairing
  obtain ⟨final, st', made, hclimb, hmade, hevals, hfinal, hpool', hsuffix⟩ :=
    climb_spec H objective hnodup hevaluate config.maxPasses current
      { st with generator := g, evaluations := st.evaluations + 1 } hmembers hpool
  refine ⟨final, { st' with pool := st'.pool.add H final }, made, ?_, hmade, ?_,
    hpool'.add hfinal, hsuffix.trans (Pool.suffix_add H _ _), Pool.mem_add hpool' final⟩
  · simp only [restart, hrandom, hcurrent, ok_bind]
    rw [hclimb]
    rfl
  · simp only [hevals]
    omega

theorem searchState_succ (G : Generator γ) (players : List PlayerId) (config : SearchConfig)
    (objective : Objective) (evaluate : Pairing → Except Fault ScoredPairing) (k : Nat) :
    searchState H G players config objective evaluate (k + 1) =
      (searchState H G players config objective evaluate k >>= fun st =>
        Prod.snd <$> restart H G players config objective evaluate st) := by
  simp only [searchState, List.range_succ, List.foldlM_append, List.foldlM_cons,
    List.foldlM_nil, bind_pure]

include hG in
/-- After `k` restarts over a roster of players that differ, even in number, the search has
made `k` restarts of at most the permitted passes each, with one evaluation for each restart's
random pairing and `m (m - 1)` for each pass; the pool keeps its invariant and holds the pairing
each restart settled on. -/
theorem searchState_spec (hnodup : players.Nodup) (heven : players.length % 2 = 0)
    (hevaluate : ∀ p, ∃ s, evaluate p = .ok s ∧ s.pairing = p) (config : SearchConfig) :
    ∀ k, ∃ st, ∃ passes : List Nat, searchState H G players config objective evaluate k = .ok st ∧
      st.pool.Inv H players ∧ passes.length = k ∧ (∀ made ∈ passes, made ≤ config.maxPasses) ∧
      st.evaluations =
        (passes.map fun made => 1 + made * (players.length / 2 * (players.length / 2 - 1))).sum ∧
      ∀ j < k, ∃ before final after,
        searchState H G players config objective evaluate j = .ok before ∧
        restart H G players config objective evaluate before = .ok (final, after) ∧
        final.id H ∈ st.pool.entries.map Prod.fst
  | 0 => ⟨{ generator := G.seeded config.seed }, [], rfl, Pool.inv_empty H players, rfl,
      by simp, rfl, by simp⟩
  | k + 1 => by
    obtain ⟨st, passes, hst, hpool, hlength, hmade, hevals, hfinals⟩ :=
      searchState_spec hnodup heven hevaluate config k
    obtain ⟨final, st', made, hrestart, hmade', hevals', hpool', hsuffix, hfinal⟩ :=
      restart_spec H hG objective hnodup heven hevaluate config hpool
    refine ⟨st', passes ++ [made], ?_, hpool', by simp [hlength], ?_, ?_, ?_⟩
    · rw [searchState_succ, hst, ok_bind, hrestart]
      rfl
    · intro m hm
      rcases List.mem_append.mp hm with hm | hm
      · exact hmade m hm
      · rw [List.mem_singleton.mp hm]
        exact hmade'
    · rw [hevals', hevals, List.map_append, List.sum_append]
      simp
    · intro j hj
      rcases Nat.lt_succ_iff_lt_or_eq.mp hj with hj | rfl
      · obtain ⟨before, final', after, hbefore, hrestart', hmem⟩ := hfinals j hj
        exact ⟨before, final', after, hbefore, hrestart', (hsuffix.map Prod.fst).subset hmem⟩
      · exact ⟨st, final, st', hst, hrestart, hfinal⟩

end

/-! ### Ranking the pool -/

theorem pair_sublist_or {α : Type} : ∀ {l : List α} {a b : α}, a ∈ l → b ∈ l → a ≠ b →
    [a, b].Sublist l ∨ [b, a].Sublist l
  | c :: l, a, b, ha, hb, hab => by
    rcases List.mem_cons.mp ha with rfl | ha'
    · have hb' : b ∈ l := (List.mem_cons.mp hb).resolve_left (Ne.symm hab)
      exact .inl (List.cons_sublist_cons.mpr (List.singleton_sublist.mpr hb'))
    · rcases List.mem_cons.mp hb with rfl | hb'
      · exact .inr (List.cons_sublist_cons.mpr (List.singleton_sublist.mpr ha'))
      · exact (pair_sublist_or ha' hb' hab).imp (·.cons c) (·.cons c)

theorem not_pair_sublist_swap {α : Type} : ∀ {l : List α} {a b : α}, l.Nodup →
    [a, b].Sublist l → ¬ [b, a].Sublist l
  | [], _, _, _, hab, _ => by simp at hab
  | c :: l, a, b, hl, hab, hba => by
    obtain ⟨hc, hl'⟩ := List.nodup_cons.mp hl
    rcases List.sublist_cons_iff.mp hab with hab' | ⟨r, hr, hsub⟩
    · rcases List.sublist_cons_iff.mp hba with hba' | ⟨r', hr', -⟩
      · exact not_pair_sublist_swap hl' hab' hba'
      · -- `b` heads the list, and comes again after it in `[a, b]`
        obtain ⟨rfl, -⟩ := List.cons.inj hr'
        exact hc (hab'.subset (by simp : b ∈ [a, b]))
    · -- `a` heads the list, and comes again after it in `[b, a]`
      obtain ⟨rfl, -⟩ := List.cons.inj hr
      rcases List.sublist_cons_iff.mp hba with hba' | ⟨r', hr', hsub'⟩
      · exact hc (hba'.subset (by simp : a ∈ [b, a]))
      · obtain ⟨-, rfl⟩ := List.cons.inj hr'
        exact hc (hsub'.subset (by simp : a ∈ [a]))

theorem rankBy_ties_ordered {α β : Type} [LinearOrder β] (score : α → Score) (o : Objective)
    (key : α → β) {xs : List α} (hxs : xs.Pairwise fun a b => key a < key b) :
    (rankBy score o xs).Pairwise fun a b =>
      Score.compare o (score a) (score b) = .eq → key a < key b := by
  have hnodup : (rankBy score o xs).Nodup :=
    (perm_rankBy score o xs).nodup_iff.mpr (hxs.imp fun hlt heq => (heq ▸ hlt).false)
  rw [List.pairwise_iff_forall_sublist]
  intro a b hab htie
  have ha : a ∈ xs := (mem_rankBy score o).mp (hab.subset (by simp))
  have hb : b ∈ xs := (mem_rankBy score o).mp (hab.subset (by simp))
  have hne : a ≠ b := List.pairwise_iff_forall_sublist.mp hnodup hab
  rcases pair_sublist_or ha hb hne with hxs' | hxs'
  · exact List.pairwise_iff_forall_sublist.mp hxs hxs'
  · -- `b` comes first in the list; tied, it would come first in the ranking too
    have hba : Score.compare o (score b) (score a) ≠ .gt := by
      rw [Score.compare_swap, htie]
      decide
    exact absurd (pair_sublist_rankBy score o hxs' hba) (not_pair_sublist_swap hnodup hab)

section

variable {η γ : Type} (H : Hasher η) {G : Generator γ} {players : List PlayerId}
  (objective : Objective) {evaluate : Pairing → Except Fault ScoredPairing}

theorem searchPairings_of_searchState (htwo : 2 ≤ players.length)
    (heven : players.length % 2 = 0) {config : SearchConfig} {st : SearchState γ}
    (hst : searchState H G players config objective evaluate config.restarts = .ok st) :
    searchPairings H G players config objective evaluate =
      .ok (rankBy (·.score) objective st.pool.byId,
        ⟨st.evaluations, st.moves, st.pool.entries.length⟩) := by
  have hpaired : (players.length < 2 || players.length % 2 != 0) = false := by
    simp only [Bool.or_eq_false_iff, decide_eq_false_iff_not, bne_eq_false_iff_eq]
    omega
  simp only [searchPairings, hpaired, hst]
  rfl

theorem searchPairings_ok (hG : G.DrawsBelow) (hnodup : players.Nodup)
    (hevaluate : ∀ p, ∃ s, evaluate p = .ok s ∧ s.pairing = p) (config : SearchConfig) :
    ∃ r, searchPairings H G players config objective evaluate = .ok r := by
  by_cases hpaired : 2 ≤ players.length ∧ players.length % 2 = 0
  · obtain ⟨st, -, hst, -⟩ :=
      searchState_spec H hG objective hnodup hpaired.2 hevaluate config config.restarts
    exact ⟨_, searchPairings_of_searchState H objective hpaired.1 hpaired.2 hst⟩
  · have hshort : (players.length < 2 || players.length % 2 != 0) = true := by
      simp only [Bool.or_eq_true, decide_eq_true_eq, bne_iff_ne, ne_eq]
      omega
    exact ⟨_, by simp only [searchPairings, hshort]; rfl⟩

end

/-- What a search of a roster returns: pairings of the roster, each once, ranked with ties in
the order of their identifiers, among them the pairing each restart settled on, found with one
evaluation per restart and `m (m - 1)` per pass, for `m` pairs. -/
structure SearchOutcome {η γ : Type} (H : Hasher η) (G : Generator γ) (players : List PlayerId)
    (config : SearchConfig) (objective : Objective)
    (evaluate : Pairing → Except Fault ScoredPairing) (ranked : List ScoredPairing)
    (stats : SearchStats) : Prop where
  nonempty : ranked ≠ []
  partitions : ∀ s ∈ ranked, s.pairing.partitions players = true
  distinct : (ranked.map (ScoredPairing.id H)).Nodup
  counted : stats.distinct = ranked.length
  sorted : ranked.Pairwise fun a b => Score.compare objective a.score b.score ≠ .gt
  ties : ranked.Pairwise fun a b => Score.compare objective a.score b.score = .eq → a.id H < b.id H
  finals : ∀ k < config.restarts, ∃ before final after,
    searchState H G players config objective evaluate k = .ok before ∧
    restart H G players config objective evaluate before = .ok (final, after) ∧
    final.id H ∈ ranked.map (ScoredPairing.id H)
  evaluations : ∃ passes : List Nat, passes.length = config.restarts ∧
    (∀ made ∈ passes, made ≤ config.maxPasses) ∧
    stats.evaluations =
      (passes.map fun made => 1 + made * (players.length / 2 * (players.length / 2 - 1))).sum

theorem searchPairings_outcome {η γ : Type} (H : Hasher η) {G : Generator γ}
    (hG : G.DrawsBelow) {players : List PlayerId} (hnodup : players.Nodup)
    (htwo : 2 ≤ players.length) (heven : players.length % 2 = 0) {config : SearchConfig}
    (hrestarts : 0 < config.restarts) (objective : Objective)
    {evaluate : Pairing → Except Fault ScoredPairing}
    (hevaluate : ∀ p, ∃ s, evaluate p = .ok s ∧ s.pairing = p) :
    ∃ ranked stats, searchPairings H G players config objective evaluate = .ok (ranked, stats) ∧
      SearchOutcome H G players config objective evaluate ranked stats := by
  obtain ⟨st, passes, hst, hpool, hlength, hmade, hevals, hfinals⟩ :=
    searchState_spec H hG objective hnodup heven hevaluate config config.restarts
  have hids := ((perm_rankBy (·.score) objective st.pool.byId).map (ScoredPairing.id H)).trans
    hpool.perm_byId
  have hfinals' : ∀ k < config.restarts, ∃ before final after,
      searchState H G players config objective evaluate k = .ok before ∧
      restart H G players config objective evaluate before = .ok (final, after) ∧
      final.id H ∈ (rankBy (·.score) objective st.pool.byId).map (ScoredPairing.id H) := by
    intro k hk
    obtain ⟨before, final, after, hbefore, hrestart, hmem⟩ := hfinals k hk
    exact ⟨before, final, after, hbefore, hrestart, hids.mem_iff.mpr hmem⟩
  refine ⟨_, _, searchPairings_of_searchState H objective htwo heven hst,
    ⟨?_, ?_, ?_, ?_, ?_, ?_, hfinals', passes, hlength, hmade, hevals⟩⟩
  · obtain ⟨_, final, _, -, -, hmem⟩ := hfinals' 0 hrestarts
    intro hnil
    rw [hnil] at hmem
    simp at hmem
  · intro s hs
    exact Pairing.partitions_of_perm_members hnodup (hpool.mem_byId ((mem_rankBy _ _).mp hs))
  · exact hids.nodup_iff.mpr hpool.nodup
  · simp [length_rankBy, Pool.length_byId]
  · exact pairwise_rankBy _ _ _
  · exact rankBy_ties_ordered _ _ (ScoredPairing.id H) hpool.byId_sorted

theorem searchPairings_outcome_of_four_players :
    Wyrand.generator.DrawsBelow ∧ ["a", "b", "c", "d"].Nodup ∧ 2 ≤ ["a", "b", "c", "d"].length ∧
      ["a", "b", "c", "d"].length % 2 = 0 ∧ 0 < ({} : SearchConfig).restarts ∧
      ∃ ranked stats, searchPairings Sha256.hasher Wyrand.generator ["a", "b", "c", "d"] {}
          .maxExpectedWins (fun p => .ok ⟨p, default, none⟩) = .ok (ranked, stats) ∧
        SearchOutcome Sha256.hasher Wyrand.generator ["a", "b", "c", "d"] {} .maxExpectedWins
          (fun p => .ok ⟨p, default, none⟩) ranked stats :=
  have hnodup : ["a", "b", "c", "d"].Nodup := by decide
  ⟨Wyrand.drawsBelow, hnodup, by decide, by decide, by decide,
    searchPairings_outcome Sha256.hasher Wyrand.drawsBelow hnodup (by decide) (by decide)
      (by decide) .maxExpectedWins fun p => ⟨_, rfl, rfl⟩⟩

end DoublesLineup
