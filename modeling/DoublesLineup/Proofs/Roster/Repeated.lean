import Mathlib.Data.List.Duplicate
import DoublesLineup.Proofs.Roster.Enumerate
/-! # A repeated player makes enumeration fault

`enumerate` pairs the first player with each later one in turn, and a pair of one player twice
is a fault. Whatever two positions of an even roster hold, some perfect matching pairs them, so
the search faults, at those two positions or earlier, exactly when the roster lists a player
twice; the fault then names a player listed twice. An odd roster, or one shorter than two, is
answered with no pairing before any pair is formed (`enumerate_faults_exactly_on_repeats`).

The induction follows `matchings`: a roster `x :: rest` faults when `x` is listed again in
`rest` (the pick of that partner faults), or when the others left after some pick repeat a
player. Of three or more players with a repetition, some pick leaves one
(`exists_mem_picks_not_nodup`), and the others of an even roster are even again.
-/

namespace DoublesLineup

namespace Pair

theorem make_self (a : PlayerId) : make a a = .error (.repeatedPlayer a) := by
  simp [make, make?]

theorem make_eq_error {a b : PlayerId} {f : Fault} (h : make a b = .error f) :
    a = b ∧ f = .repeatedPlayer a := by
  by_cases hab : a = b
  · subst hab
    rw [make_self] at h
    cases h
    exact ⟨rfl, rfl⟩
  · rw [make_eq_ok hab] at h
    cases h

end Pair

section Picks

variable {α : Type}

theorem sublist_of_mem_picks : ∀ {xs : List α} {y : α} {ys : List α},
    (y, ys) ∈ picks xs → ys.Sublist xs
  | [], _, _, h => by simp [picks] at h
  | x :: xs, y, ys, h => by
    simp only [picks, List.mem_cons, Prod.mk.injEq, List.mem_map, Prod.exists] at h
    rcases h with ⟨rfl, rfl⟩ | ⟨z, zs, hm, rfl, rfl⟩
    · exact List.sublist_cons_self _ _
    · exact (sublist_of_mem_picks hm).cons_cons x

theorem exists_mem_picks_mem_snd {y : α} : ∀ {xs : List α}, y ∈ xs → 2 ≤ xs.length →
    ∃ p ∈ picks xs, y ∈ p.2
  | a :: b :: cs, hy, _ => by
    by_cases hya : y = a
    · -- pick the second entry, which leaves the first
      subst hya
      exact ⟨(b, y :: cs), by simp [picks], List.mem_cons_self⟩
    · exact ⟨(a, b :: cs), by simp [picks], (List.mem_cons.mp hy).resolve_left hya⟩

theorem exists_mem_picks_not_nodup : ∀ {xs : List α}, ¬xs.Nodup → 3 ≤ xs.length →
    ∃ p ∈ picks xs, ¬p.2.Nodup
  | z :: zs, hdup, hlen => by
    rw [List.nodup_cons, not_and_or, not_not] at hdup
    rcases hdup with hz | hzs
    · -- the head is repeated: leave it and one of its repetitions behind
      obtain ⟨⟨w, ws⟩, hp, hzw⟩ :=
        exists_mem_picks_mem_snd hz (by simp only [List.length_cons] at hlen; omega)
      refine ⟨(w, z :: ws), ?_, fun hnd => (List.nodup_cons.mp hnd).1 hzw⟩
      simp only [picks, List.mem_cons, List.mem_map, Prod.mk.injEq]
      exact Or.inr ⟨(w, ws), hp, rfl, rfl⟩
    · exact ⟨(z, zs), by simp [picks], hzs⟩

end Picks

/-- An even roster that lists a player twice makes `matchings` fault. -/
theorem matchings_error_of_not_nodup : ∀ {xs : List PlayerId}, xs.length % 2 = 0 → ¬xs.Nodup →
    ∃ f, matchings xs = .error f
  | [], _, hdup => absurd List.nodup_nil hdup
  | x :: rest, heven, hdup => by
    rw [matchings_cons]
    refine bind_error_of_error ?_
    rw [List.nodup_cons, not_and_or, not_not] at hdup
    rcases hdup with hx | hrest
    · -- partnering `x` with its own repetition faults
      refine mapM_error_of_mem (mem_picks_erase hx) ⟨.repeatedPlayer x, ?_⟩
      simp only [Pair.make_self]
      rfl
    · -- some partner leaves a repetition among the others, an even roster again
      have hlen : 3 ≤ rest.length := by
        have hpos : rest ≠ [] := by
          rintro rfl
          exact hrest List.nodup_nil
        have hpos := List.length_pos_of_ne_nil hpos
        have hne : rest.length ≠ 1 := fun h1 => by
          obtain ⟨y, rfl⟩ := List.length_eq_one_iff.mp h1
          exact hrest (List.nodup_singleton y)
        simp only [List.length_cons] at heven
        omega
      obtain ⟨⟨y, others⟩, hp, hothers⟩ := exists_mem_picks_not_nodup hrest hlen
      have heven' : others.length % 2 = 0 := by
        have := length_of_mem_picks hp
        simp only [List.length_cons] at heven
        omega
      obtain ⟨f, hf⟩ := matchings_error_of_not_nodup heven' hothers
      refine mapM_error_of_mem hp ?_
      dsimp only
      cases hmake : Pair.make x y with
      | error e => exact bind_error_of_error ⟨e, rfl⟩
      | ok pair =>
        rw [ok_bind, hf]
        exact ⟨f, rfl⟩
termination_by xs => xs.length
decreasing_by
  have := length_of_mem_picks hp
  simp only [List.length_cons]
  omega

theorem matchings_error_repeated : ∀ {xs : List PlayerId} {f : Fault}, matchings xs = .error f →
    ∃ x, f = .repeatedPlayer x ∧ List.Duplicate x xs
  | [], f, h => by
    rw [matchings] at h
    cases h
  | x :: rest, f, h => by
    rw [matchings_cons, bind_eq_error] at h
    obtain hgroups | ⟨_, _, hpure⟩ := h
    · obtain ⟨⟨y, others⟩, hp, hstep⟩ := mapM_eq_error hgroups
      rcases bind_eq_error.mp hstep with hmake | ⟨pair, -, hrest⟩
      · -- the pick of `y` faulted: `y` is `x` listed again
        obtain ⟨rfl, rfl⟩ := Pair.make_eq_error hmake
        exact ⟨x, rfl, List.duplicate_cons_self_iff.mpr (fst_mem_of_mem_picks hp)⟩
      · -- the others faulted, on a player they list twice
        obtain hsub | ⟨_, _, hpure⟩ := bind_eq_error.mp hrest
        · obtain ⟨z, rfl, hz⟩ := matchings_error_repeated hsub
          exact ⟨z, rfl, ((hz.mono_sublist (sublist_of_mem_picks hp)).duplicate_cons x)⟩
        · cases hpure
    · cases hpure
termination_by xs => xs.length
decreasing_by
  have := length_of_mem_picks hp
  simp only [List.length_cons]
  omega

/-- `enumerate` faults exactly on the rosters it would pair up that list a player twice, and the
fault names such a player; it answers an odd roster, or one shorter than two, with no pairing
whatever it lists. -/
theorem enumerate_faults_exactly_on_repeats (players : List PlayerId) :
    if 2 ≤ players.length ∧ players.length % 2 = 0 then
      ((∃ f, enumerate players = .error f) ↔ ¬players.Nodup) ∧
        ∀ f, enumerate players = .error f → ∃ x, f = .repeatedPlayer x ∧ List.Duplicate x players
    else enumerate players = .ok [] := by
  unfold enumerate
  by_cases hc : 2 ≤ players.length ∧ players.length % 2 = 0
  · -- a roster that can be paired up has a nonzero count, so the search runs
    rw [if_pos hc, if_neg (fun h0 => (countPairings_eq_zero_iff _).mp h0 hc)]
    refine ⟨⟨fun ⟨f, hf⟩ hnd => ?_, fun hdup => ?_⟩, fun f hf => ?_⟩
    · -- a roster without repetitions is paired up without a fault
      obtain ⟨ms, hms, -⟩ := matchings_spec hnd
      rw [hms] at hf
      cases hf
    · obtain ⟨f, hf⟩ := matchings_error_of_not_nodup hc.2 hdup
      exact ⟨f, by rw [hf]; rfl⟩
    · exact matchings_error_repeated (map_eq_error hf)
  · rw [if_neg hc, if_pos ((countPairings_eq_zero_iff _).mpr hc)]

/-- A roster of four listing its first player again in third place faults. -/
theorem enumerate_faults_on_player_listed_twice :
    ¬["a", "b", "a", "c"].Nodup ∧ ∃ f, enumerate ["a", "b", "a", "c"] = .error f := by
  have hspec := enumerate_faults_exactly_on_repeats ["a", "b", "a", "c"]
  rw [if_pos (by decide)] at hspec
  have hdup : ¬["a", "b", "a", "c"].Nodup := by decide
  exact ⟨hdup, hspec.1.mpr hdup⟩

end DoublesLineup
