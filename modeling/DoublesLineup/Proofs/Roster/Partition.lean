import Mathlib.Data.List.Nodup
import Mathlib.Data.List.Perm.Subperm
import DoublesLineup.Roster.Pairing
/-! # When a pairing splits a roster

`Pairing.partitions` checks two things only: there are half as many pairs as listed players,
and each listed player is contained in exactly one pair. For a roster without repetitions this
is exactly the intended meaning: the members of the pairs, counted with multiplicity, are a
permutation of the roster (`partitions_iff_perm_members`). The counting goes through
`length_filter_contains_le_count`: the pairs containing a player are at most as many as the
player's occurrences among the members.

A roster that lists one player twice is outside that law: `partitions_accepts_repeated_listing`
shows one pair `a|b` accepted for the roster `a, a`, whose members are not a permutation of it.
-/

namespace DoublesLineup

instance instLawfulBEqPair : LawfulBEq Pair where
  rfl := by
    intro a
    cases a
    simp [BEq.beq, instBEqPair.beq]
  eq_of_beq := by
    intro a b h
    cases a
    cases b
    simp only [BEq.beq, instBEqPair.beq, Bool.and_eq_true, decide_eq_true_eq] at h
    rw [h.1, h.2]

namespace Pairing

theorem length_filter_contains_le_count (ps : List Pair) (x : PlayerId) :
    (ps.filter (·.contains x)).length ≤ (ps.flatMap Pair.players).count x := by
  induction ps with
  | nil => simp
  | cons q ps ih =>
    rw [List.flatMap_cons, List.count_append]
    by_cases h : q.contains x = true
    · have hpos : 0 < q.players.count x := List.count_pos_iff.mpr (Pair.contains_iff_mem.mp h)
      simp only [List.filter_cons, h, if_true, List.length_cons]
      omega
    · simp only [List.filter_cons, h, Bool.false_eq_true, if_false]
      omega

/-- What the check of `partitions` asks, as a proposition. -/
theorem partitions_eq_true_iff {p : Pairing} {players : List PlayerId} :
    p.partitions players = true ↔
      p.pairs.length * 2 = players.length ∧
        ∀ x ∈ players, (p.pairs.filter (·.contains x)).length = 1 := by
  simp [partitions]

theorem mem_members_iff_length_filter_pos {p : Pairing} {x : PlayerId} :
    x ∈ p.members ↔ 0 < (p.pairs.filter (·.contains x)).length := by
  rw [mem_members, List.length_pos_iff_exists_mem]
  simp only [List.mem_filter]

theorem length_filter_contains_le_one {p : Pairing} (h : p.members.Nodup) (x : PlayerId) :
    (p.pairs.filter (·.contains x)).length ≤ 1 :=
  Nat.le_trans (length_filter_contains_le_count p.pairs x) (List.nodup_iff_count_le_one.mp h x)

theorem perm_members_of_partitions {p : Pairing} {players : List PlayerId}
    (distinct : players.Nodup) (h : p.partitions players = true) : p.members.Perm players := by
  obtain ⟨hlen, hone⟩ := partitions_eq_true_iff.mp h
  have covered : players ⊆ p.members := fun x hx =>
    mem_members_iff_length_filter_pos.mpr (by rw [hone x hx]; decide)
  have fits : p.members.length ≤ players.length := by
    rw [length_members]
    omega
  exact ((List.subperm_of_subset distinct covered).perm_of_length_le fits).symm

theorem partitions_of_perm_members {p : Pairing} {players : List PlayerId}
    (distinct : players.Nodup) (h : p.members.Perm players) : p.partitions players = true := by
  have once : p.members.Nodup := h.nodup_iff.mpr distinct
  refine partitions_eq_true_iff.mpr ⟨?_, fun x hx => ?_⟩
  · rw [← h.length_eq, length_members]
    omega
  · have pos := mem_members_iff_length_filter_pos.mp (h.mem_iff.mpr hx)
    have le := length_filter_contains_le_one once x
    omega

/-- For a roster without repetitions, a pairing splits it exactly when the members of its
pairs are a permutation of the roster. -/
theorem partitions_iff_perm_members (p : Pairing) (players : List PlayerId)
    (distinct : players.Nodup) : p.partitions players = true ↔ p.members.Perm players :=
  ⟨perm_members_of_partitions distinct, partitions_of_perm_members distinct⟩

theorem partitions_of_perm {p p' : Pairing} (hnodup : p'.members.Nodup)
    (h : p'.members.Perm p.members) {roster : List PlayerId} (hp : p.partitions roster = true) :
    p'.partitions roster = true := by
  obtain ⟨hlen, hone⟩ := partitions_eq_true_iff.mp hp
  refine partitions_eq_true_iff.mpr ⟨?_, fun x hx => ?_⟩
  · have hsame := h.length_eq
    rw [length_members, length_members] at hsame
    omega
  · have hmem : x ∈ p.members :=
      mem_members_iff_length_filter_pos.mpr (by rw [hone x hx]; decide)
    have pos := mem_members_iff_length_filter_pos.mp (h.mem_iff.mpr hmem)
    have le := length_filter_contains_le_one hnodup x
    omega

/-- The law at a roster of four listed out of order. -/
theorem partitions_four_players :
    ["c", "a", "d", "b"].Nodup ∧
      (Pairing.partitions ⟨[⟨"a", "d"⟩, ⟨"b", "c"⟩]⟩ ["c", "a", "d", "b"] = true ↔
        (Pairing.members ⟨[⟨"a", "d"⟩, ⟨"b", "c"⟩]⟩).Perm ["c", "a", "d", "b"]) :=
  have distinct : ["c", "a", "d", "b"].Nodup := by decide
  ⟨distinct, partitions_iff_perm_members _ _ distinct⟩

/-- A roster listing one player twice can be accepted although the members differ from it. -/
theorem partitions_accepts_repeated_listing :
    Pairing.partitions ⟨[⟨"a", "b"⟩]⟩ ["a", "a"] = true ∧
      ¬ (Pairing.members ⟨[⟨"a", "b"⟩]⟩).Perm ["a", "a"] := by
  decide

end Pairing

end DoublesLineup
