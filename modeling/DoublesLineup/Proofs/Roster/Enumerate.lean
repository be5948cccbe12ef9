import Mathlib.Data.Sym.Sym2
import DoublesLineup.Proofs.Roster.Matching
/-! # Enumerating the pairings of a roster

`countPairings n` multiplies the odd numbers below an even `n ≥ 2` modulo `2 ^ 64`: it is the
double factorial `(n - 1)!!` reduced modulo `2 ^ 64`, which is `(n - 1)!!` itself up to 34
players (`countPairings_eq`, `countPairings_of_le`). A product of odd numbers is odd, so the
count is never zero for a roster that can be paired up, and `enumerate`'s test for a zero
count asks exactly whether the roster is odd or shorter than two (`countPairings_eq_zero_iff`).

For a roster without repetitions `enumerate` answers with its perfect matchings, each once
(`enumerate_spec`). Read as unordered pairs of players, every split of the roster into pairs,
whichever way round each pair lists its players, is one of them
(`enumerate_lists_perfect_matchings`).
-/

namespace DoublesLineup

open Nat

theorem foldl_odd_product (k : Nat) :
    (List.range k).foldl (fun acc i => acc * (2 * i + 1)) 1 = (2 * k - 1)‼ := by
  induction k with
  | zero => rfl
  | succ k ih =>
    rw [List.range_succ, List.foldl_append, ih, List.foldl_cons, List.foldl_nil]
    rcases k with _ | j
    · rfl
    · have hprev : 2 * (j + 1) - 1 = 2 * j + 1 := by omega
      have hnext : 2 * (j + 1 + 1) - 1 = 2 * j + 1 + 2 := by omega
      rw [hprev, hnext, doubleFactorial_add_two]
      ring

theorem doubleFactorial_odd (k : Nat) : (2 * k + 1)‼ % 2 = 1 := by
  induction k with
  | zero => rfl
  | succ k ih =>
    rw [show 2 * (k + 1) + 1 = 2 * k + 1 + 2 by omega, doubleFactorial_add_two, Nat.mul_mod, ih]
    omega

theorem doubleFactorial_le_add_two_mul (m j : Nat) : m‼ ≤ (m + 2 * j)‼ := by
  induction j with
  | zero => rfl
  | succ j ih =>
    rw [show m + 2 * (j + 1) = m + 2 * j + 2 by omega, doubleFactorial_add_two]
    exact ih.trans (Nat.le_mul_of_pos_left _ (by omega))

/-- The count of pairings is `(n - 1)!!` modulo `2 ^ 64` for an even `n ≥ 2`, else zero. -/
theorem countPairings_eq (n : Nat) :
    countPairings n = if 2 ≤ n ∧ n % 2 = 0 then (n - 1)‼ % 2 ^ 64 else 0 := by
  unfold countPairings
  by_cases hn : 2 ≤ n ∧ n % 2 = 0
  · have hhalf : 2 * (n / 2) = n := by omega
    rw [if_neg (by omega), if_pos hn, foldl_odd_product, hhalf]
    rfl
  · rw [if_pos (by omega), if_neg hn]

theorem countPairings_odd {n : Nat} (hn : 2 ≤ n) (heven : n % 2 = 0) :
    countPairings n % 2 = 1 := by
  have hodd : n - 1 = 2 * (n / 2 - 1) + 1 := by omega
  rw [countPairings_eq, if_pos ⟨hn, heven⟩, Nat.mod_mod_of_dvd _ (by decide), hodd]
  exact doubleFactorial_odd _

theorem countPairings_eq_zero_iff (n : Nat) : countPairings n = 0 ↔ ¬(2 ≤ n ∧ n % 2 = 0) := by
  constructor
  · intro h0 hn
    have hodd := countPairings_odd hn.1 hn.2
    omega
  · intro hn
    rw [countPairings_eq, if_neg hn]

theorem countPairings_of_le {n : Nat} (h : n ≤ 34) :
    countPairings n = if 2 ≤ n ∧ n % 2 = 0 then (n - 1)‼ else 0 := by
  rw [countPairings_eq]
  by_cases hn : 2 ≤ n ∧ n % 2 = 0
  · have hle : (n - 1)‼ ≤ 33‼ := by
      have := doubleFactorial_le_add_two_mul (n - 1) ((34 - n) / 2)
      rwa [show n - 1 + 2 * ((34 - n) / 2) = 33 by omega] at this
    have hbelow : 33‼ < 2 ^ 64 := by decide
    rw [if_pos hn, if_pos hn, Nat.mod_eq_of_lt (hle.trans_lt hbelow)]
  · rw [if_neg hn, if_neg hn]

/-- Every pairing of a roster without repetitions, each once; none when it cannot be paired. -/
theorem enumerate_spec {players : List PlayerId} (h : players.Nodup) :
    ∃ pairings, enumerate players = .ok pairings ∧
      if 2 ≤ players.length ∧ players.length % 2 = 0 then
        MatchingsSpec players (pairings.map (·.pairs))
      else pairings = [] := by
  unfold enumerate
  by_cases hc : 2 ≤ players.length ∧ players.length % 2 = 0
  · obtain ⟨ms, hms, spec⟩ := matchings_spec h
    refine ⟨ms.map Pairing.mk, ?_, ?_⟩
    · rw [if_neg (fun h0 => (countPairings_eq_zero_iff _).mp h0 hc), hms]
      rfl
    · have hpairs : (ms.map Pairing.mk).map (·.pairs) = ms := by
        simp [List.map_map, Function.comp_def]
      rw [if_pos hc, hpairs]
      exact spec
  · exact ⟨[], by rw [if_pos ((countPairings_eq_zero_iff _).mpr hc)], by rw [if_neg hc]⟩

namespace Pair

/-- A pair as the unordered pair of its two players. -/
def unordered (p : Pair) : Sym2 PlayerId := s(p.low, p.high)

theorem unordered_of (a b : PlayerId) : (of a b).unordered = s(a, b) := by
  unfold of unordered
  split
  · rfl
  · exact Sym2.eq_swap

end Pair

/-- Two lists of pairs hold the same unordered pairs of players. -/
def SameUnorderedPairs (a b : List Pair) : Prop :=
  ∀ u, u ∈ a.map Pair.unordered ↔ u ∈ b.map Pair.unordered

theorem SameUnorderedPairs.of_samePairs {a b : List Pair} (h : SamePairs a b) :
    SameUnorderedPairs a b := fun u => by
  simp only [List.mem_map]
  exact ⟨fun ⟨q, hq, hu⟩ => ⟨q, (h q).mp hq, hu⟩, fun ⟨q, hq, hu⟩ => ⟨q, (h q).mpr hq, hu⟩⟩

theorem SameUnorderedPairs.trans {a b c : List Pair} (hab : SameUnorderedPairs a b)
    (hbc : SameUnorderedPairs b c) : SameUnorderedPairs a c := fun u => (hab u).trans (hbc u)

theorem ordered_split_of_partitions {players : List PlayerId} (distinct : players.Nodup)
    {Q : Pairing} (h : Q.partitions players = true) :
    let ps := Q.pairs.map fun q => Pair.of q.low q.high
    (ps.flatMap Pair.players).Perm players ∧ (∀ q ∈ ps, q.Ordered) ∧ SameUnorderedPairs ps Q.pairs := by
  intro ps
  have hmembers := (Pairing.partitions_iff_perm_members Q players distinct).mp h
  have hnodup : (Q.pairs.flatMap Pair.players).Nodup := hmembers.nodup_iff.mpr distinct
  refine ⟨?_, ?_, fun u => ?_⟩
  · -- putting a pair in order only swaps its two players
    have hswap : (ps.flatMap Pair.players).Perm (Q.pairs.flatMap Pair.players) := by
      rw [List.flatMap_map]
      exact List.Perm.flatMap_left _ fun q _ => Pair.players_of_perm q.low q.high
    exact hswap.trans hmembers
  · intro q hq
    obtain ⟨q', hq', rfl⟩ := List.mem_map.mp hq
    have hdistinct : q'.players.Nodup := (List.nodup_flatMap.mp hnodup).1 q' hq'
    exact Pair.of_ordered (by simpa [Pair.players] using hdistinct)
  · have hput : ps.map Pair.unordered = Q.pairs.map Pair.unordered := by
      simp only [ps, List.map_map, Function.comp_def, Pair.unordered_of]
      rfl
    rw [hput]

/-- What `enumerate` answers for a roster without repetitions: its perfect matchings, each
once. -/
structure ListsPerfectMatchings (players : List PlayerId) (pairings : List Pairing) : Prop where
  /-- `(n - 1)!!` pairings of an even roster of `n ≥ 2` players, none otherwise. -/
  count : pairings.length =
    if 2 ≤ players.length ∧ players.length % 2 = 0 then (players.length - 1)‼ else 0
  /-- As many as `countPairings` says, up to 34 players. -/
  count_small : players.length ≤ 34 → pairings.length = countPairings players.length
  /-- Each pairing has half as many pairs as players and partitions the roster. -/
  splits : ∀ P ∈ pairings, P.pairs.length = players.length / 2 ∧ P.partitions players = true
  /-- No two pairings hold the same pairs. -/
  distinct : pairings.Pairwise fun P Q => ¬SamePairs P.pairs Q.pairs
  /-- Every split of a non-empty roster into pairs holds the unordered pairs of one of them. -/
  complete : players ≠ [] → ∀ Q : Pairing, Q.partitions players = true →
    ∃ P ∈ pairings, SameUnorderedPairs P.pairs Q.pairs

/-- `enumerate` lists exactly the perfect matchings of a roster without repetitions, each once;
and the count it tests is zero exactly for a roster that is odd or shorter than two, being
otherwise an odd number, `(n - 1)!!` modulo `2 ^ 64`. -/
theorem enumerate_lists_perfect_matchings {players : List PlayerId} (distinct : players.Nodup) :
    (∃ pairings, enumerate players = .ok pairings ∧ ListsPerfectMatchings players pairings) ∧
      ∀ n, countPairings n = (if 2 ≤ n ∧ n % 2 = 0 then (n - 1)‼ % 2 ^ 64 else 0) ∧
        (2 ≤ n → n % 2 = 0 → countPairings n % 2 = 1) ∧
        (countPairings n = 0 ↔ n % 2 = 1 ∨ n < 2) := by
  refine ⟨?_, fun n => ⟨countPairings_eq n, countPairings_odd, ?_⟩⟩
  · obtain ⟨pairings, hpairings, hspec⟩ := enumerate_spec distinct
    refine ⟨pairings, hpairings, ?_⟩
    by_cases hc : 2 ≤ players.length ∧ players.length % 2 = 0
    · rw [if_pos hc] at hspec
      have hcount : pairings.length = (players.length - 1)‼ := by
        rw [← List.length_map (f := (·.pairs)), hspec.length, if_pos hc.2]
      refine ⟨by rw [if_pos hc, hcount], fun hsmall => ?_, fun P hP => ?_, ?_, ?_⟩
      · rw [countPairings_of_le hsmall, if_pos hc, hcount]
      · -- the members of each pairing are a permutation of the roster
        have hperm := hspec.perm P.pairs (List.mem_map_of_mem hP)
        have hlen := hperm.length_eq
        rw [Pairing.length_flatMap_players] at hlen
        exact ⟨by omega, (Pairing.partitions_iff_perm_members P players distinct).mpr hperm⟩
      · exact List.pairwise_map.mp hspec.distinct
      · intro _ Q hQ
        obtain ⟨hsplit, hordered, hsame⟩ := ordered_split_of_partitions distinct hQ
        obtain ⟨m, hm, hmsame⟩ := hspec.complete _ hsplit hordered
        obtain ⟨P, hP, rfl⟩ := List.mem_map.mp hm
        exact ⟨P, hP, (SameUnorderedPairs.of_samePairs hmsame).trans hsame⟩
    · rw [if_neg hc] at hspec
      subst hspec
      refine ⟨by rw [if_neg hc]; rfl, fun _ => ?_, by simp, List.Pairwise.nil,
        fun hne Q hQ => ?_⟩
      · rw [countPairings_eq, if_neg hc]
        rfl
      · exfalso
        have hperm := (Pairing.partitions_iff_perm_members Q players distinct).mp hQ
        have hlen := hperm.length_eq
        have hpos := List.length_pos_of_ne_nil hne
        rw [Pairing.length_members] at hlen
        omega
  · rw [countPairings_eq_zero_iff]
    omega

theorem enumerate_lists_perfect_matchings_of_four_players :
    ["a", "b", "c", "d"].Nodup ∧
      (∃ pairings, enumerate ["a", "b", "c", "d"] = .ok pairings ∧
        ListsPerfectMatchings ["a", "b", "c", "d"] pairings) ∧
      ∀ n, countPairings n = (if 2 ≤ n ∧ n % 2 = 0 then (n - 1)‼ % 2 ^ 64 else 0) ∧
        (2 ≤ n → n % 2 = 0 → countPairings n % 2 = 1) ∧
        (countPairings n = 0 ↔ n % 2 = 1 ∨ n < 2) :=
  have distinct : ["a", "b", "c", "d"].Nodup := by decide
  ⟨distinct, enumerate_lists_perfect_matchings distinct⟩

/-- The empty roster is split into pairs by the empty pairing, yet `enumerate` lists no pairing
of fewer than two players. -/
theorem enumerate_omits_empty_split :
    (⟨[]⟩ : Pairing).partitions [] = true ∧ enumerate [] = .ok [] :=
  ⟨by decide, rfl⟩

end DoublesLineup
