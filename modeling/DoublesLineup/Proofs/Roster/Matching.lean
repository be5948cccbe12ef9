import Mathlib.Data.Nat.Factorial.DoubleFactorial
import Mathlib.Data.String.Basic
import DoublesLineup.Roster.Matching
import DoublesLineup.Proofs.Roster.Partition
import DoublesLineup.Proofs.Except
/-! # Every pairing of a roster, once

`matchings` partners the first player with each later one in turn and recurses on the players
left. For a roster without repetitions it succeeds, and its answer is exactly the set of
perfect matchings of the roster, each once (`MatchingsSpec`): every pairing's members are a
permutation of the roster and its pairs are ordered, no two pairings hold the same pairs, any
split of the roster into ordered pairs holds the same pairs as one of them, and there are
`(n - 1)!!` pairings of an even roster of `n` players and none of an odd one.

The induction is on the roster: the pairings of `x :: rest` are, for each pick of a partner
`y` from `rest`, the pair of `x` and `y` in front of each pairing of the others
(`extendAll`), and each field of the specification carries over that step on its own.
-/

namespace DoublesLineup

/-- Two lists of pairs hold the same pairs, whatever their order. -/
def SamePairs (a b : List Pair) : Prop := ∀ q, q ∈ a ↔ q ∈ b

theorem SamePairs.symm {a b : List Pair} (h : SamePairs a b) : SamePairs b a :=
  fun q => (h q).symm

namespace Pair

/-- A pair as its type promises it: the smaller player first, so the two differ. -/
def Ordered (p : Pair) : Prop := p.low < p.high

/-- The pair of two players, smaller identifier first. -/
def of (a b : PlayerId) : Pair := if a < b then ⟨a, b⟩ else ⟨b, a⟩

theorem make_eq_ok {a b : PlayerId} (h : a ≠ b) : make a b = .ok (of a b) := by
  unfold make make? of
  rw [if_neg h]
  by_cases hab : a < b <;> simp only [hab, if_true, if_false]

theorem of_ordered {a b : PlayerId} (h : a ≠ b) : (of a b).Ordered := by
  unfold of Ordered
  rcases lt_trichotomy a b with hab | rfl | hba
  · simp [hab]
  · exact absurd rfl h
  · simp [not_lt_of_gt hba, hba]

theorem players_of_perm (a b : PlayerId) : (of a b).players.Perm [a, b] := by
  unfold of players
  split
  · exact List.Perm.refl _
  · exact List.Perm.swap a b []

theorem of_inj {x y z : PlayerId} (h : of x y = of x z) : y = z := by
  have hy := (players_of_perm x y).symm.trans (h ▸ players_of_perm x z)
  simpa using (List.perm_cons x).mp hy

theorem eq_of_of_mem {q : Pair} {x : PlayerId} (ho : q.Ordered) (hx : x ∈ q.players) :
    ∃ y, y ≠ x ∧ q = of x y := by
  unfold Ordered at ho
  simp only [players, List.mem_cons, List.not_mem_nil, or_false] at hx
  rcases hx with rfl | rfl
  · exact ⟨q.high, ne_of_gt ho, by simp [of, ho]⟩
  · exact ⟨q.low, ne_of_lt ho, by simp [of, not_lt_of_gt ho]⟩

end Pair

section Picks

variable {α : Type}

theorem perm_of_mem_picks : ∀ {xs : List α} {y : α} {ys : List α},
    (y, ys) ∈ picks xs → (y :: ys).Perm xs
  | [], _, _, h => by simp [picks] at h
  | x :: xs, y, ys, h => by
    simp only [picks, List.mem_cons, Prod.mk.injEq, List.mem_map, Prod.exists] at h
    rcases h with ⟨rfl, rfl⟩ | ⟨z, zs, hm, rfl, rfl⟩
    · exact List.Perm.refl _
    · exact (List.Perm.swap x z zs).trans ((perm_of_mem_picks hm).cons x)

theorem map_fst_picks : ∀ xs : List α, (picks xs).map Prod.fst = xs
  | [] => rfl
  | x :: xs => by simp [picks, Function.comp_def, map_fst_picks xs]

theorem mem_picks_erase [DecidableEq α] : ∀ {xs : List α} {y : α}, y ∈ xs →
    (y, xs.erase y) ∈ picks xs
  | [], _, h => by simp at h
  | x :: xs, y, h => by
    by_cases hxy : x = y
    · subst hxy
      simp [picks]
    · have hy : y ∈ xs := (List.mem_cons.mp h).resolve_left (Ne.symm hxy)
      have hne : ¬(x == y) = true := by simpa using hxy
      rw [List.erase_cons_tail hne]
      simp only [picks, List.mem_cons, List.mem_map, Prod.mk.injEq, Prod.exists]
      exact Or.inr ⟨y, xs.erase y, mem_picks_erase hy, rfl, rfl⟩

theorem picks_pairwise_fst_ne {xs : List α} (h : xs.Nodup) :
    (picks xs).Pairwise fun a b => a.1 ≠ b.1 := by
  rw [← map_fst_picks xs, List.nodup_iff_pairwise_ne, List.pairwise_map] at h
  exact h

end Picks

theorem matchings_cons (x : PlayerId) (rest : List PlayerId) : matchings (x :: rest) = (do
    let groups ← (picks rest).mapM fun (y, others) => do
      let pair ← Pair.make x y
      let tails ← matchings others
      pure (tails.map (pair :: ·))
    pure groups.flatten) := by
  rw [matchings]
  congr 1
  rw [@List.mapM_subtype (Except Fault) _ _ _ _ _ _ _ (fun (p : PlayerId × List PlayerId) => do
      let pair ← Pair.make x p.1
      let tails ← matchings p.2
      pure (tails.map (pair :: ·))) fun _ _ => rfl]
  simp

/-- The pairings of `x :: rest` built from pairings `sub (y, others)` of the players left after
each pick of a partner `y`. -/
def extendAll (x : PlayerId) (rest : List PlayerId)
    (sub : PlayerId × List PlayerId → List (List Pair)) : List (List Pair) :=
  (picks rest).flatMap fun p => (sub p).map (Pair.of x p.1 :: ·)

/-- What `matchings` promises of its answer for a roster: each pairing splits the roster into
ordered pairs, no two hold the same pairs, every such split is one of them, and they number
`(n - 1)!!` for an even roster of `n` players and none for an odd one. -/
structure MatchingsSpec (xs : List PlayerId) (ms : List (List Pair)) : Prop where
  perm : ∀ ps ∈ ms, (ps.flatMap Pair.players).Perm xs
  ordered : ∀ ps ∈ ms, ∀ q ∈ ps, q.Ordered
  distinct : ms.Pairwise fun a b => ¬SamePairs a b
  complete : ∀ ps : List Pair, (ps.flatMap Pair.players).Perm xs → (∀ q ∈ ps, q.Ordered) →
    ∃ m ∈ ms, SamePairs m ps
  length : ms.length = if xs.length % 2 = 0 then (xs.length - 1).doubleFactorial else 0

section Step

variable {x : PlayerId} {rest : List PlayerId} {sub : PlayerId × List PlayerId → List (List Pair)}

theorem mem_extendAll {ps : List Pair} :
    ps ∈ extendAll x rest sub ↔ ∃ p ∈ picks rest, ∃ t ∈ sub p, ps = Pair.of x p.1 :: t := by
  simp only [extendAll, List.mem_flatMap, List.mem_map]
  constructor
  · rintro ⟨p, hp, t, ht, rfl⟩
    exact ⟨p, hp, t, ht, rfl⟩
  · rintro ⟨p, hp, t, ht, rfl⟩
    exact ⟨p, hp, t, ht, rfl⟩

theorem subset_of_mem_picks {p : PlayerId × List PlayerId} (hp : p ∈ picks rest) :
    p.2 ⊆ rest := fun _ hz => (perm_of_mem_picks hp).subset (List.mem_cons_of_mem _ hz)

theorem fst_mem_of_mem_picks {p : PlayerId × List PlayerId} (hp : p ∈ picks rest) :
    p.1 ∈ rest := (perm_of_mem_picks hp).subset List.mem_cons_self

theorem not_mem_of_perm {t : List Pair} {others : List PlayerId}
    (ht : (t.flatMap Pair.players).Perm others) {q : Pair} (hxq : x ∈ q.players)
    (hx : x ∉ others) : q ∉ t :=
  fun hq => hx (ht.subset (List.mem_flatMap.mpr ⟨q, hq, hxq⟩))

theorem samePairs_of_cons {c : Pair} {a b : List Pair} (ha : c ∉ a) (hb : c ∉ b)
    (h : SamePairs (c :: a) (c :: b)) : SamePairs a b := by
  intro q
  constructor
  · intro hq
    have hne : q ≠ c := fun e => ha (e ▸ hq)
    exact (List.mem_cons.mp ((h q).mp (List.mem_cons_of_mem c hq))).resolve_left hne
  · intro hq
    have hne : q ≠ c := fun e => hb (e ▸ hq)
    exact (List.mem_cons.mp ((h q).mpr (List.mem_cons_of_mem c hq))).resolve_left hne

theorem perm_extendAll
    (hsub : ∀ p ∈ picks rest, ∀ t ∈ sub p, (t.flatMap Pair.players).Perm p.2) :
    ∀ ps ∈ extendAll x rest sub, (ps.flatMap Pair.players).Perm (x :: rest) := by
  intro ps hps
  obtain ⟨⟨y, others⟩, hp, t, ht, rfl⟩ := mem_extendAll.mp hps
  rw [List.flatMap_cons]
  have hfront : ((Pair.of x y).players ++ t.flatMap Pair.players).Perm ([x, y] ++ others) :=
    (Pair.players_of_perm x y).append (hsub _ hp t ht)
  exact hfront.trans ((perm_of_mem_picks hp).cons x)

theorem ordered_extendAll (hx : x ∉ rest)
    (hsub : ∀ p ∈ picks rest, ∀ t ∈ sub p, ∀ q ∈ t, q.Ordered) :
    ∀ ps ∈ extendAll x rest sub, ∀ q ∈ ps, q.Ordered := by
  intro ps hps q hq
  obtain ⟨p, hp, t, ht, rfl⟩ := mem_extendAll.mp hps
  rcases List.mem_cons.mp hq with rfl | hq
  · exact Pair.of_ordered fun h => hx (h ▸ fst_mem_of_mem_picks hp)
  · exact hsub p hp t ht q hq

theorem distinct_extendAll (hx : x ∉ rest) (hrest : rest.Nodup)
    (hperm : ∀ p ∈ picks rest, ∀ t ∈ sub p, (t.flatMap Pair.players).Perm p.2)
    (hdistinct : ∀ p ∈ picks rest, (sub p).Pairwise fun a b => ¬SamePairs a b) :
    (extendAll x rest sub).Pairwise fun a b => ¬SamePairs a b := by
  have hxof : ∀ y, x ∈ (Pair.of x y).players := fun y =>
    (Pair.players_of_perm x y).symm.subset List.mem_cons_self
  have hout : ∀ p ∈ picks rest, ∀ t ∈ sub p, Pair.of x p.1 ∉ t := fun p hp t ht =>
    not_mem_of_perm (hperm p hp t ht) (hxof p.1) fun h => hx (subset_of_mem_picks hp h)
  unfold extendAll
  rw [List.pairwise_flatMap]
  refine ⟨fun p hp => ?_, ?_⟩
  · -- behind one first pair, the pairings of the others stay apart
    rw [List.pairwise_map]
    exact (hdistinct p hp).imp_of_mem fun ha hb hab hsame =>
      hab (samePairs_of_cons (hout p hp _ ha) (hout p hp _ hb) hsame)
  · -- with two partners of `x`, the pairs holding `x` differ
    refine (picks_pairwise_fst_ne hrest).imp_of_mem fun {p p'} _ hp' hne => ?_
    intro a ha b hb hsame
    obtain ⟨t, -, rfl⟩ := List.mem_map.mp ha
    obtain ⟨t', ht', rfl⟩ := List.mem_map.mp hb
    rcases List.mem_cons.mp ((hsame (Pair.of x p.1)).mp List.mem_cons_self) with heq | hin
    · exact hne (Pair.of_inj heq)
    · exact not_mem_of_perm (hperm p' hp' t' ht') (hxof p.1)
        (fun h => hx (subset_of_mem_picks hp' h)) hin

theorem complete_extendAll
    (hcomplete : ∀ p ∈ picks rest, ∀ ps : List Pair, (ps.flatMap Pair.players).Perm p.2 →
      (∀ q ∈ ps, q.Ordered) → ∃ m ∈ sub p, SamePairs m ps) :
    ∀ ps : List Pair, (ps.flatMap Pair.players).Perm (x :: rest) → (∀ q ∈ ps, q.Ordered) →
      ∃ m ∈ extendAll x rest sub, SamePairs m ps := by
  intro ps hperm hordered
  -- the pair that holds `x` is `x` with some partner `y`
  obtain ⟨q, hq, hxq⟩ := List.mem_flatMap.mp (hperm.symm.subset List.mem_cons_self)
  obtain ⟨y, hyx, rfl⟩ := Pair.eq_of_of_mem (hordered q hq) hxq
  have hsplit := (List.perm_cons_erase hq).flatMap_right Pair.players
  rw [List.flatMap_cons] at hsplit
  have hfront := ((Pair.players_of_perm x y).append (List.Perm.refl
    ((ps.erase (Pair.of x y)).flatMap Pair.players))).symm.trans (hsplit.symm.trans hperm)
  have hothers := List.cons_perm_iff_perm_erase.mp ((List.perm_cons x).mp hfront)
  have hpick := mem_picks_erase hothers.1
  obtain ⟨t, ht, hsame⟩ := hcomplete _ hpick _ hothers.2
    fun q' hq' => hordered q' (List.mem_of_mem_erase hq')
  refine ⟨Pair.of x y :: t, mem_extendAll.mpr ⟨_, hpick, t, ht, rfl⟩, fun q' => ?_⟩
  rw [List.mem_cons, hsame q']
  constructor
  · rintro (rfl | h)
    · exact hq
    · exact List.mem_of_mem_erase h
  · intro h
    by_cases e : q' = Pair.of x y
    · exact Or.inl e
    · exact Or.inr ((List.mem_erase_of_ne e).mpr h)

theorem length_extendAll {c : Nat} (hsub : ∀ p ∈ picks rest, (sub p).length = c) :
    (extendAll x rest sub).length = rest.length * c := by
  have hpicks : (picks rest).length = rest.length := by
    simpa using congrArg List.length (map_fst_picks rest)
  unfold extendAll
  rw [List.length_flatMap, List.map_congr_left fun p hp => by rw [List.length_map, hsub p hp],
    List.map_const', List.sum_replicate, hpicks]
  simp

end Step

theorem matchingCount_succ_succ (r : Nat) :
    (r + 1) * (if r % 2 = 0 then (r - 1).doubleFactorial else 0) =
      if (r + 2) % 2 = 0 then (r + 2 - 1).doubleFactorial else 0 := by
  rcases Nat.even_or_odd r with ⟨j, rfl⟩ | ⟨j, rfl⟩
  · rcases j with _ | j
    · rfl
    · have hsplit : j + 1 + (j + 1) + 2 - 1 = (2 * j + 1) + 2 := by omega
      have hprev : j + 1 + (j + 1) - 1 = 2 * j + 1 := by omega
      simp only [show (j + 1 + (j + 1)) % 2 = 0 by omega, show (j + 1 + (j + 1) + 2) % 2 = 0 by omega,
        if_true, hsplit, hprev, Nat.doubleFactorial_add_two]
      ring
  · have hodd : (2 * j + 1) % 2 = 1 := by omega
    have hodd' : (2 * j + 1 + 2) % 2 = 1 := by omega
    simp [hodd, hodd']

/-- For a roster without repetitions `matchings` succeeds, with exactly its perfect matchings. -/
theorem matchings_spec : ∀ {xs : List PlayerId}, xs.Nodup →
    ∃ ms, matchings xs = .ok ms ∧ MatchingsSpec xs ms
  | [], _ => ⟨[[]], by rw [matchings], {
      perm := by simp
      ordered := by simp
      distinct := List.pairwise_singleton _ _
      complete := fun ps hps _ => ⟨[], List.mem_singleton_self _, fun q => by
        have hnil : ps = [] := by
          rcases ps with _ | ⟨q', ps⟩
          · rfl
          · simp [Pair.players] at hps
        simp [hnil]⟩
      length := rfl }⟩
  | x :: rest, hnodup => by
    have hx : x ∉ rest := (List.nodup_cons.mp hnodup).1
    have hrest : rest.Nodup := (List.nodup_cons.mp hnodup).2
    have ih : ∀ p ∈ picks rest, ∃ ms, matchings p.2 = .ok ms ∧ MatchingsSpec p.2 ms :=
      fun p hp => matchings_spec
        ((List.nodup_cons.mp ((perm_of_mem_picks hp).nodup_iff.mpr hrest)).2)
    let sub := fun p : PlayerId × List PlayerId => (matchings p.2).toOption.getD []
    have hsub : ∀ p ∈ picks rest, matchings p.2 = .ok (sub p) ∧ MatchingsSpec p.2 (sub p) := by
      intro p hp
      obtain ⟨ms, hms, hspec⟩ := ih p hp
      simp only [sub, hms]
      exact ⟨rfl, hspec⟩
    have hgroups : (picks rest).mapM (fun (y, others) => do
        let pair ← Pair.make x y
        let tails ← matchings others
        pure (tails.map (pair :: ·))) =
        .ok ((picks rest).map fun p => (sub p).map (Pair.of x p.1 :: ·)) := by
      refine mapM_eq_ok_map fun ⟨y, others⟩ hp => ?_
      have hxy : x ≠ y := fun h => hx (h ▸ fst_mem_of_mem_picks hp)
      simp only [Pair.make_eq_ok hxy, (hsub _ hp).1]
      rfl
    refine ⟨extendAll x rest sub, ?_, ?_⟩
    · rw [matchings_cons, hgroups]
      rfl
    · have hlen : ∀ p ∈ picks rest, (sub p).length =
          if (rest.length - 1) % 2 = 0 then (rest.length - 1 - 1).doubleFactorial else 0 := by
        intro p hp
        rw [(hsub p hp).2.length, ← length_of_mem_picks hp]
        simp
      exact {
        perm := perm_extendAll fun p hp => (hsub p hp).2.perm
        ordered := ordered_extendAll hx fun p hp => (hsub p hp).2.ordered
        distinct := distinct_extendAll hx hrest (fun p hp => (hsub p hp).2.perm)
          fun p hp => (hsub p hp).2.distinct
        complete := complete_extendAll fun p hp => (hsub p hp).2.complete
        length := by
          rw [length_extendAll hlen]
          rcases rest with _ | ⟨y, rest⟩
          · rfl
          · simp only [List.length_cons, Nat.add_sub_cancel]
            exact matchingCount_succ_succ rest.length }
termination_by xs => xs.length
decreasing_by
  have := length_of_mem_picks hp
  simp only [List.length_cons]
  omega

end DoublesLineup
