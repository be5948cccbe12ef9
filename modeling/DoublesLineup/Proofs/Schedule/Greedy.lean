import DoublesLineup.Proofs.Schedule.PairOrder
/-! # The greedy schedule is well formed and maximal

A round is filled by fixing its candidates, best first, each unless its slot or its pair is
already taken. What that loop keeps is `GreedyInv`: every slot keeps its category and opponent,
a slot with a pair got it and its estimate from a candidate fixed for that slot, the taken slots
and pairs are exactly those in play, no pair plays twice, and every candidate met so far found
its slot or its pair taken. One step keeps it (`GreedyInv.step`), so the whole loop does
(`GreedyInv.run`).

A round that is scheduled without a fault has found the estimate of every pair in every slot,
so its candidates are exactly the admissible (slot, pair) combinations, and the invariant at
the end of the loop says what the round promises (`RoundPlay`): no pair plays twice, a pair
plays only where admitted and with that slot's estimate, an empty slot is a forfeit, and a slot
stays empty only when every pair it admits plays elsewhere. Over the match
(`buildSchedule_greedy_maximal`) the schedule has eight rounds of four slots of the template's
categories and the opponent's pairs; the slots filled are the pairs' usages summed, and a pair's
usage is the number of rounds it plays.
-/

namespace DoublesLineup

/-! ### A round scheduled without a fault -/

section Closed

variable {l : StatsLookup}

theorem SlotView.found_of_estimate {v : SlotView} {p : Pair} {e : Option WinEstimate}
    (h : v.estimate l p = .ok e) : v.found l p = e := by
  rw [found, h]

theorem slotCandidates_of_ok {v : SlotView} {round slot : Nat} {pairs : List Pair} {i : Nat}
    {acc cs : List Candidate}
    (h : slotCandidates l v round slot (pairs.map fun p => (p, none)) i acc = .ok cs) :
    cs = (slotCandidateList (v.found l) slot pairs i).reverse ++ acc ∧
      ∀ p ∈ pairs, ∃ e, v.estimate l p = .ok e := by
  induction pairs generalizing i acc with
  | nil =>
    rw [List.map_nil, slotCandidates, pure_eq_ok] at h
    exact ⟨by simp [h, slotCandidateList], by simp⟩
  | cons p rest ih =>
    rw [List.map_cons, slotCandidates, bind_eq_ok] at h
    obtain ⟨e, hest, h⟩ := h
    have hest : v.estimate l p = .ok e := hest
    have hfound := SlotView.found_of_estimate hest
    cases e with
    | some e =>
      obtain ⟨hcs, hrest⟩ := ih h
      refine ⟨by rw [hcs]; simp [slotCandidateList, List.zipIdx_cons, hfound],
        fun q hq => ?_⟩
      rcases List.mem_cons.mp hq with rfl | hq
      · exact ⟨_, hest⟩
      · exact hrest q hq
    | none =>
      obtain ⟨hcs, hrest⟩ := ih h
      refine ⟨by rw [hcs]; simp [slotCandidateList, List.zipIdx_cons, hfound],
        fun q hq => ?_⟩
      rcases List.mem_cons.mp hq with rfl | hq
      · exact ⟨_, hest⟩
      · exact hrest q hq

theorem slotsCandidates_of_ok {pairs : List Pair} {round : Nat} {views : List SlotView}
    {slot : Nat} {acc cs : List Candidate}
    (h : slotsCandidates l (pairs.map fun p => (p, none)) round views slot acc = .ok cs) :
    cs = ((views.zipIdx slot).flatMap fun vs =>
        slotCandidateList (vs.1.found l) vs.2 pairs 0).reverse ++ acc ∧
      ∀ v ∈ views, ∀ p ∈ pairs, ∃ e, v.estimate l p = .ok e := by
  induction views generalizing slot acc with
  | nil =>
    rw [slotsCandidates, pure_eq_ok] at h
    exact ⟨by simp [h], by simp⟩
  | cons v rest ih =>
    rw [slotsCandidates, bind_eq_ok] at h
    obtain ⟨acc', hacc', h⟩ := h
    obtain ⟨hacc'', hfirst⟩ := slotCandidates_of_ok hacc'
    obtain ⟨hcs, hrest⟩ := ih h
    refine ⟨by rw [hcs, hacc'']; simp, fun w hw => ?_⟩
    rcases List.mem_cons.mp hw with rfl | hw
    · exact hfirst
    · exact hrest w hw

theorem roundCandidates_of_ok {pairs : List Pair} {round : Nat} {views : List SlotView}
    {cs : List Candidate} (h : roundCandidates l (pairs.map fun p => (p, none)) round views = .ok cs) :
    cs = roundCandidateList l views pairs ∧ ∀ v ∈ views, ∀ p ∈ pairs, ∃ e, v.estimate l p = .ok e := by
  rw [roundCandidates, bind_eq_ok] at h
  obtain ⟨cs', hcs', h⟩ := h
  rw [pure_eq_ok] at h
  obtain ⟨hcs'', hall⟩ := slotsCandidates_of_ok hcs'
  refine ⟨?_, hall⟩
  rw [← h, hcs'', List.append_nil, List.reverse_reverse]
  rfl

theorem scheduleRound_of_ok {pairing : Pairing} {round : Nat} {views : List SlotView}
    {slots : List SlotAssignment}
    (h : scheduleRound l pairing (pairing.pairs.map fun p => (p, none)) round views = .ok slots) :
    (∀ v ∈ views, ∀ p ∈ pairing.pairs, ∃ e, v.estimate l p = .ok e) ∧
      assignGreedy pairing ((roundCandidateList l views pairing.pairs).mergeSort Candidate.before)
        (views.map fun v => SlotAssignment.forfeit v.matchType v.opponent) = .ok slots := by
  rw [scheduleRound, bind_eq_ok] at h
  obtain ⟨cs, hcs, h⟩ := h
  obtain ⟨rfl, hall⟩ := roundCandidates_of_ok hcs
  exact ⟨hall, h⟩

end Closed

/-! ### The greedy loop over named candidates -/

theorem getElem?_fill (slots : List SlotAssignment) (c : PairCandidate) (j : Nat) :
    (slots.modify c.slot fun a => { a with ours := some c.pair, estimate := c.estimate })[j]? =
      if c.slot = j then
        slots[j]?.map fun a => { a with ours := some c.pair, estimate := c.estimate }
      else slots[j]? := by
  rw [List.getElem?_modify]
  by_cases h : c.slot = j <;> simp [h]

/-- What fixing the named candidates `done` in order keeps, from assignments `start` in which no
slot has a pair yet. -/
structure GreedyInv (start : List SlotAssignment) (done : List PairCandidate)
    (acc : List SlotAssignment × List Nat × List Pair) : Prop where
  /-- The round keeps its slots. -/
  length : acc.1.length = start.length
  /-- A slot keeps its category and opponent, and one without a pair is as it started. -/
  frame : ∀ (k : Nat) (a : SlotAssignment), acc.1[k]? = some a → ∃ a₀ : SlotAssignment,
    start[k]? = some a₀ ∧
    a.matchType = a₀.matchType ∧ a.opponent = a₀.opponent ∧ (a.ours = none → a = a₀)
  /-- A slot with a pair got it, and its estimate, from a candidate for that slot. -/
  fixed : ∀ (k : Nat) (a : SlotAssignment) (p : Pair), acc.1[k]? = some a → a.ours = some p →
    ∃ c ∈ done, c.slot = k ∧ c.pair = p ∧ c.estimate = a.estimate
  /-- The taken slots are those with a pair. -/
  slotTaken : ∀ k, k ∈ acc.2.1 ↔ ∃ a : SlotAssignment, acc.1[k]? = some a ∧ a.ours.isSome
  /-- The taken pairs are those that play a slot. -/
  pairTaken : ∀ p, p ∈ acc.2.2 ↔ ∃ (k : Nat) (a : SlotAssignment), acc.1[k]? = some a ∧ a.ours = some p
  /-- No pair plays two slots. -/
  once : ∀ (k t : Nat) (a b : SlotAssignment) (p : Pair), acc.1[k]? = some a →
    acc.1[t]? = some b → a.ours = some p → b.ours = some p → k = t
  /-- Every candidate met found its slot or its pair taken. -/
  maximal : ∀ c ∈ done, c.slot ∈ acc.2.1 ∨ c.pair ∈ acc.2.2

namespace GreedyInv

variable {start : List SlotAssignment} {done : List PairCandidate}
  {acc : List SlotAssignment × List Nat × List Pair} {c : PairCandidate}

theorem init (hstart : ∀ a ∈ start, a.ours = none) : GreedyInv start [] (start, [], []) where
  length := rfl
  frame _ a h := ⟨a, h, rfl, rfl, fun _ => rfl⟩
  fixed _ a _ h hp := absurd hp (by rw [hstart a (List.mem_of_getElem? h)]; nofun)
  slotTaken _ := by
    simp only [List.not_mem_nil, false_iff, not_exists, not_and]
    intro a h
    simp [hstart a (List.mem_of_getElem? h)]
  pairTaken _ := by
    simp only [List.not_mem_nil, false_iff, not_exists, not_and]
    intro _ a h
    simp [hstart a (List.mem_of_getElem? h)]
  once _ _ a _ _ h _ hp := absurd hp (by rw [hstart a (List.mem_of_getElem? h)]; nofun)
  maximal _ h := absurd h List.not_mem_nil

theorem skip (h : GreedyInv start done acc) (htaken : c.slot ∈ acc.2.1 ∨ c.pair ∈ acc.2.2) :
    GreedyInv start (done ++ [c]) acc :=
  { h with
    fixed := fun k a p hk hp =>
      (h.fixed k a p hk hp).imp fun _ ⟨hd, rest⟩ => ⟨List.mem_append_left _ hd, rest⟩
    maximal := fun d hd => (List.mem_append.mp hd).elim (h.maximal d) fun hd =>
      (List.mem_singleton.mp hd) ▸ htaken }

theorem fill (h : GreedyInv start done acc) (hc : c.slot < start.length) (hs : c.slot ∉ acc.2.1)
    (hp : c.pair ∉ acc.2.2) :
    GreedyInv start (done ++ [c])
      (acc.1.modify c.slot (fun a => { a with ours := some c.pair, estimate := c.estimate }),
        c.slot :: acc.2.1, c.pair :: acc.2.2) := by
  obtain ⟨slots, st, pt⟩ := acc
  dsimp only at hs hp ⊢
  obtain ⟨a₀, ha₀⟩ : ∃ a, slots[c.slot]? = some a :=
    ⟨_, List.getElem?_eq_getElem (h.length ▸ hc)⟩
  have hfree : a₀.ours = none := by
    cases hx : a₀.ours with
    | none => rfl
    | some _ => exact absurd ((h.slotTaken c.slot).mpr ⟨a₀, ha₀, by simp [hx]⟩) hs
  have hread := getElem?_fill slots c
  have hself : c ∈ done ++ [c] := List.mem_append_right _ (List.mem_singleton_self c)
  refine ⟨by simpa using h.length, fun k a hk => ?_, fun k a q hk hq => ?_, fun k => ?_,
    fun q => ?_, fun k t a b q hk ht hka htb => ?_, fun d hd => ?_⟩
  · -- a slot keeps its category and opponent
    rw [hread] at hk
    by_cases hck : c.slot = k
    · rw [if_pos hck] at hk
      obtain ⟨a', ha', rfl⟩ := Option.map_eq_some_iff.mp hk
      obtain ⟨a₁, h₁, hm, ho, -⟩ := h.frame k a' ha'
      exact ⟨a₁, h₁, hm, ho, nofun⟩
    · rw [if_neg hck] at hk
      exact h.frame k a hk
  · -- the filled slot got its pair from `c`
    rw [hread] at hk
    by_cases hck : c.slot = k
    · rw [if_pos hck] at hk
      obtain ⟨a', -, rfl⟩ := Option.map_eq_some_iff.mp hk
      exact ⟨c, hself, hck, Option.some.inj hq, rfl⟩
    · rw [if_neg hck] at hk
      obtain ⟨d, hd, rest⟩ := h.fixed k a q hk hq
      exact ⟨d, List.mem_append_left _ hd, rest⟩
  · rw [List.mem_cons, h.slotTaken k, hread]
    by_cases hck : c.slot = k
    · subst hck
      simp [ha₀]
    · simp [hck, Ne.symm hck]
  · rw [List.mem_cons, h.pairTaken q]
    constructor
    · rintro (rfl | ⟨k, a, hk, hq⟩)
      · exact ⟨c.slot, _, by rw [hread, if_pos rfl, ha₀]; rfl, rfl⟩
      · -- the pair played another slot: the one filled had no pair
        have hck : c.slot ≠ k := by
          rintro rfl
          rw [ha₀, Option.some.injEq] at hk
          rw [← hk, hfree] at hq
          cases hq
        exact ⟨k, a, by rw [hread, if_neg hck]; exact hk, hq⟩
    · rintro ⟨k, a, hk, hq⟩
      rw [hread] at hk
      by_cases hck : c.slot = k
      · rw [if_pos hck] at hk
        obtain ⟨a', -, rfl⟩ := Option.map_eq_some_iff.mp hk
        exact .inl (Option.some.inj hq).symm
      · rw [if_neg hck] at hk
        exact .inr ⟨k, a, hk, hq⟩
  · -- the pair of `c` played no slot before, so it plays only the one filled
    rw [hread] at hk ht
    by_cases hck : c.slot = k <;> by_cases hct : c.slot = t
    · exact hck.symm.trans hct
    · rw [if_pos hck] at hk
      rw [if_neg hct] at ht
      obtain ⟨a', -, rfl⟩ := Option.map_eq_some_iff.mp hk
      cases Option.some.inj hka
      exact absurd ((h.pairTaken _).mpr ⟨t, b, ht, htb⟩) hp
    · rw [if_neg hck] at hk
      rw [if_pos hct] at ht
      obtain ⟨b', -, rfl⟩ := Option.map_eq_some_iff.mp ht
      cases Option.some.inj htb
      exact absurd ((h.pairTaken _).mpr ⟨k, a, hk, hka⟩) hp
    · rw [if_neg hck] at hk
      rw [if_neg hct] at ht
      exact h.once k t a b q hk ht hka htb
  · rcases List.mem_append.mp hd with hd | hd
    · exact (h.maximal d hd).imp (List.mem_cons_of_mem _) (List.mem_cons_of_mem _)
    · rw [List.mem_singleton.mp hd]
      exact .inl List.mem_cons_self

theorem step (h : GreedyInv start done acc) (hc : c.slot < start.length) :
    GreedyInv start (done ++ [c]) (assignNamed acc c) := by
  unfold assignNamed
  by_cases hs : c.slot ∈ acc.2.1
  · simp only [List.contains_iff_mem, hs, if_true]
    exact h.skip (.inl hs)
  · by_cases hp : c.pair ∈ acc.2.2
    · simp only [List.contains_iff_mem, hs, hp, if_true, if_false]
      exact h.skip (.inr hp)
    · simp only [List.contains_iff_mem, hs, hp, if_false]
      exact h.fill hc hs hp

theorem run : ∀ {cs : List PairCandidate} {done : List PairCandidate}
    {acc : List SlotAssignment × List Nat × List Pair}, (∀ c ∈ cs, c.slot < start.length) →
    GreedyInv start done acc → GreedyInv start (done ++ cs) (cs.foldl assignNamed acc)
  | [], _, _, _, h => by simpa using h
  | c :: cs, _, _, hcs, h => by
    rw [List.foldl_cons, List.append_cons]
    exact run (fun d hd => hcs d (List.mem_cons_of_mem c hd)) (h.step (hcs c List.mem_cons_self))

end GreedyInv

/-! ### What a round promises -/

/-- What the scheduler promises of a round's assignments `slots`. -/
structure RoundPlay (l : StatsLookup) (pairing : Pairing) (slots : List SlotAssignment) :
    Prop where
  /-- No pair of ours plays two slots of the round. -/
  once : ∀ p : Pair, slots.countP (·.ours == some p) ≤ 1
  /-- A pair plays only in a slot whose category admits it, ... -/
  admitted : ∀ a ∈ slots, ∀ p, a.ours = some p →
    p ∈ pairing.pairs ∧ a.matchType.admits (l.gender p.low) (l.gender p.high) = true
  /-- ... with its estimate against the slot's opponent, or its own in the slot's category when
  the slot has no opponent. -/
  estimate : ∀ a ∈ slots, ∀ p, a.ours = some p →
    (match a.opponent with
      | some theirs => l.matchup p theirs (some a.matchType)
      | none => l.candidate p (some a.matchType)) = .ok a.estimate
  /-- A slot without a pair is a forfeit with no chance of winning. -/
  forfeit : ∀ a ∈ slots, a.ours = none → a.estimate = ⟨0.0, 0.0, .default⟩
  /-- A slot is left without a pair only when every pair its category admits plays another. -/
  maximal : ∀ a ∈ slots, a.ours = none → ∀ p ∈ pairing.pairs,
    a.matchType.admits (l.gender p.low) (l.gender p.high) = true → ∃ b ∈ slots, b.ours = some p

theorem countP_le_one_of_unique {α : Type} {P : α → Bool} :
    ∀ {xs : List α}, (∀ (k t : Nat) (a b : α), xs[k]? = some a → xs[t]? = some b → P a = true →
      P b = true → k = t) → xs.countP P ≤ 1
  | [], _ => by simp
  | x :: xs, h => by
    have htail : xs.countP P ≤ 1 := countP_le_one_of_unique fun k t a b hk ht ha hb =>
      Nat.succ_injective (h (k + 1) (t + 1) a b hk ht ha hb)
    rw [List.countP_cons]
    by_cases hx : P x = true
    · -- an accepted head leaves no accepted entry behind it
      have hnone : xs.countP P = 0 := List.countP_eq_zero.mpr fun b hb hpb => by
        obtain ⟨t, ht⟩ := List.getElem?_of_mem hb
        exact absurd (h 0 (t + 1) x b rfl ht hx hpb) (by omega)
      simp [hx, hnone]
    · simp [hx, htail]

namespace SlotView

variable {l : StatsLookup} {v : SlotView} {p : Pair} {e : WinEstimate}

theorem estimate_of_found (h : v.found l p = some e) : v.estimate l p = .ok (some e) := by
  unfold found at h
  split at h
  · rename_i o ho
    rw [ho, h]
  · cases h

theorem admits_of_estimate (h : v.estimate l p = .ok (some e)) :
    v.matchType.admits (l.gender p.low) (l.gender p.high) = true ∧
      (match v.opponent with
        | some theirs => l.matchup p theirs (some v.matchType)
        | none => l.candidate p (some v.matchType)) = .ok e := by
  unfold estimate at h
  split at h
  · rename_i hadmits
    refine ⟨hadmits, ?_⟩
    cases hopp : v.opponent with
    | some theirs =>
      simp only [hopp, map_eq_ok, Option.some.injEq] at h
      obtain ⟨e', he', rfl⟩ := h
      exact he'
    | none =>
      simp only [hopp, map_eq_ok, Option.some.injEq] at h
      obtain ⟨e', he', rfl⟩ := h
      exact he'
  · cases h

theorem some_of_admits {o : Option WinEstimate} (h : v.estimate l p = .ok o)
    (hadmits : v.matchType.admits (l.gender p.low) (l.gender p.high) = true) :
    ∃ e, o = some e := by
  unfold estimate at h
  rw [if_pos hadmits] at h
  split at h <;> simp only [map_eq_ok] at h <;> obtain ⟨e, -, rfl⟩ := h <;> exact ⟨e, rfl⟩

end SlotView

theorem within_of_mem_roundCandidateList {l : StatsLookup} {views : List SlotView}
    {pairs : List Pair} {c : Candidate} (hc : c ∈ roundCandidateList l views pairs) :
    c.Within views.length pairs.length := by
  obtain ⟨v, hv, p, hp, -⟩ := mem_roundCandidateList.mp hc
  exact ⟨(List.getElem?_eq_some_iff.mp hv).1, (List.getElem?_eq_some_iff.mp hp).1⟩

theorem scheduleRound_eq_assignAllNamed {l : StatsLookup} {pairing : Pairing}
    (hdistinct : pairing.pairs.Nodup) {round : Nat} {views : List SlotView}
    {slots : List SlotAssignment}
    (h : scheduleRound l pairing (pairing.pairs.map fun p => (p, none)) round views = .ok slots) :
    (∀ v ∈ views, ∀ p ∈ pairing.pairs, ∃ e, v.estimate l p = .ok e) ∧
      slots = assignAllNamed (sortedPairCandidates l views pairing.pairs)
        (views.map fun v => SlotAssignment.forfeit v.matchType v.opponent) := by
  obtain ⟨hfound, hgreedy⟩ := scheduleRound_of_ok h
  -- with no pair listed twice, the loop over numbered candidates is the one over named ones
  have hwithin : ∀ c ∈ (roundCandidateList l views pairing.pairs).mergeSort Candidate.before,
      c.Within views.length pairing.pairs.length :=
    fun c hc => within_of_mem_roundCandidateList (List.mem_mergeSort.mp hc)
  have hinj : ∀ c ∈ (roundCandidateList l views pairing.pairs).mergeSort Candidate.before,
      ∀ d ∈ (roundCandidateList l views pairing.pairs).mergeSort Candidate.before,
      pairing.pairs.getD c.pairIndex default = pairing.pairs.getD d.pairIndex default →
        c.pairIndex = d.pairIndex := by
    intro c hc d hd heq
    have hci := (hwithin c hc).2
    have hdi := (hwithin d hd).2
    rw [List.getD_eq_getElem _ _ hci, List.getD_eq_getElem _ _ hdi] at heq
    exact (hdistinct.getElem_inj_iff).mp heq
  rw [assignGreedy_eq_named hwithin hinj _ (List.length_map _)] at hgreedy
  exact ⟨hfound, (Except.ok.inj hgreedy).symm⟩

theorem scheduleRound_play {l : StatsLookup} {pairing : Pairing} (hdistinct : pairing.pairs.Nodup)
    {round : Nat} {views : List SlotView} {slots : List SlotAssignment}
    (h : scheduleRound l pairing (pairing.pairs.map fun p => (p, none)) round views = .ok slots) :
    slots.length = views.length ∧
      (∀ (k : Nat) (a : SlotAssignment), slots[k]? = some a →
        ∃ v : SlotView, views[k]? = some v ∧ a.matchType = v.matchType ∧ a.opponent = v.opponent) ∧
      RoundPlay l pairing slots := by
  obtain ⟨hfound, hslots⟩ := scheduleRound_eq_assignAllNamed hdistinct h
  let start := views.map fun v => SlotAssignment.forfeit v.matchType v.opponent
  let sorted := sortedPairCandidates l views pairing.pairs
  have hstart : ∀ a ∈ start, a.ours = none := by
    intro a ha
    obtain ⟨v, -, rfl⟩ := List.mem_map.mp ha
    rfl
  have hsorted : ∀ c ∈ sorted, c ∈ roundPairCandidates l views pairing.pairs :=
    fun c hc => (sortedPairCandidates_perm_round l views pairing.pairs).subset hc
  have hinv := GreedyInv.run (fun c hc => by
      obtain ⟨v, hv, -⟩ := mem_roundPairCandidates.mp (hsorted c hc)
      simpa [start] using (List.getElem?_eq_some_iff.mp hv).1)
    (GreedyInv.init hstart)
  rw [List.nil_append] at hinv
  unfold assignAllNamed at hslots
  generalize sorted.foldl assignNamed (start, [], []) = acc at hinv hslots
  obtain ⟨slots', st, pt⟩ := acc
  dsimp only at hslots
  subst hslots
  have hview : ∀ (k : Nat) (a : SlotAssignment), slots[k]? = some a →
      ∃ v : SlotView, views[k]? = some v ∧ a.matchType = v.matchType ∧ a.opponent = v.opponent ∧
        (a.ours = none → a = SlotAssignment.forfeit v.matchType v.opponent) := by
    intro k a hk
    obtain ⟨a₀, h₀, hm, ho, hnone⟩ := hinv.frame k a hk
    obtain ⟨v, hv, rfl⟩ := Option.map_eq_some_iff.mp (List.getElem?_map .. ▸ h₀)
    exact ⟨v, hv, hm, ho, hnone⟩
  have hplayed : ∀ (k : Nat) (a : SlotAssignment) (p : Pair), slots[k]? = some a →
      a.ours = some p → ∃ v : SlotView, views[k]? = some v ∧ a.matchType = v.matchType ∧
        a.opponent = v.opponent ∧ p ∈ pairing.pairs ∧ v.estimate l p = .ok (some a.estimate) := by
    intro k a p hk hp
    obtain ⟨c, hc, rfl, rfl, hest⟩ := hinv.fixed k a p hk hp
    obtain ⟨v, hv, hm, ho, -⟩ := hview c.slot a hk
    obtain ⟨v', hv', hpair, hfound'⟩ := mem_roundPairCandidates.mp (hsorted c hc)
    cases hv.symm.trans hv'
    exact ⟨v, hv, hm, ho, hpair, hest ▸ SlotView.estimate_of_found hfound'⟩
  refine ⟨by rw [hinv.length]; simp [start], fun k a hk => ?_, ⟨fun p => ?_, ?_, ?_, ?_, ?_⟩⟩
  · obtain ⟨v, hv, hm, ho, -⟩ := hview k a hk
    exact ⟨v, hv, hm, ho⟩
  · exact countP_le_one_of_unique fun k t a b hk ht ha hb =>
      hinv.once k t a b p hk ht (by simpa using ha) (by simpa using hb)
  · intro a ha p hp
    obtain ⟨k, hk⟩ := List.getElem?_of_mem ha
    obtain ⟨v, -, hm, -, hpair, hest⟩ := hplayed k a p hk hp
    exact ⟨hpair, hm ▸ (SlotView.admits_of_estimate hest).1⟩
  · intro a ha p hp
    obtain ⟨k, hk⟩ := List.getElem?_of_mem ha
    obtain ⟨v, -, hm, ho, -, hest⟩ := hplayed k a p hk hp
    rw [hm, ho]
    exact (SlotView.admits_of_estimate hest).2
  · intro a ha hnone
    obtain ⟨k, hk⟩ := List.getElem?_of_mem ha
    obtain ⟨v, -, -, -, hforfeit⟩ := hview k a hk
    rw [hforfeit hnone]
    rfl
  · -- the slot admits the pair, so their candidate was met and found the pair taken
    intro a ha hnone p hp hadmits
    obtain ⟨k, hk⟩ := List.getElem?_of_mem ha
    obtain ⟨v, hv, hm, -, -⟩ := hview k a hk
    obtain ⟨o, ho⟩ := hfound v (List.mem_of_getElem? hv) p hp
    obtain ⟨e, rfl⟩ := SlotView.some_of_admits ho (hm ▸ hadmits)
    have hcand : (⟨k, p, e⟩ : PairCandidate) ∈ sorted :=
      (sortedPairCandidates_perm_round l views pairing.pairs).symm.subset
        (mem_roundPairCandidates.mpr ⟨v, hv, hp, SlotView.found_of_estimate ho⟩)
    rcases hinv.maximal _ hcand with hslot | hpair
    · obtain ⟨a', hk', hsome⟩ := (hinv.slotTaken k).mp hslot
      cases hk.symm.trans hk'
      simp [hnone] at hsome
    · obtain ⟨t, b, ht, hb⟩ := (hinv.pairTaken p).mp hpair
      exact ⟨b, List.mem_of_getElem? ht, hb⟩

/-! ### The whole schedule -/

/-- What the scheduler promises of a schedule against the opponent's lineup `rounds`. -/
structure ScheduleSpec (l : StatsLookup) (pairing : Pairing) (rounds : List OpponentRound)
    (s : Schedule) : Prop where
  /-- Eight rounds, ... -/
  length : s.rounds.length = roundCount
  /-- ... of four slots each, ... -/
  width : ∀ slots ∈ s.rounds, slots.length = slotCount
  /-- ... each with the template's category and the opponent's pair at its place. -/
  slot : ∀ (r k : Nat) (slots : List SlotAssignment) (a : SlotAssignment),
    s.rounds[r]? = some slots → slots[k]? = some a →
      a.matchType = slotType r k ∧ a.opponent = opponentAt rounds r k
  /-- Each round is played as `RoundPlay` says. -/
  play : ∀ slots ∈ s.rounds, RoundPlay l pairing slots

theorem MatchView.views_ofRounds {rounds : List OpponentRound} {r : Nat} {views : List SlotView}
    (h : (MatchView.ofRounds rounds).rounds[r]? = some views) :
    views = (List.range slotCount).map fun k => ⟨slotType r k, opponentAt rounds r k⟩ := by
  simp only [MatchView.ofRounds, List.getElem?_map, Option.map_eq_some_iff] at h
  obtain ⟨r', hr', rfl⟩ := h
  obtain ⟨hlt, rfl⟩ := List.getElem?_eq_some_iff.mp hr'
  simp

theorem round_of_buildSchedule {l : StatsLookup} {pairing : Pairing}
    {rounds : List OpponentRound} {s : Schedule} (h : buildSchedule l pairing rounds = .ok s)
    {r : Nat} {slots : List SlotAssignment} (hr : s.rounds[r]? = some slots) :
    scheduleRound l pairing (pairing.pairs.map fun p => (p, none)) r
      ((List.range slotCount).map fun k => ⟨slotType r k, opponentAt rounds r k⟩) = .ok slots := by
  unfold buildSchedule scheduleOf at h
  simp only [MatchView.get?_profiles_ofRounds, bind_eq_ok, pure_eq_ok] at h
  obtain ⟨rs, hrs, rfl⟩ := h
  have hall := mapM_eq_ok.mp hrs
  have hlt : r < (MatchView.ofRounds rounds).rounds.length := by
    rw [← List.length_zipIdx (i := 0), hall.length_eq]
    exact (List.getElem?_eq_some_iff.mp hr).1
  obtain ⟨views, hviews⟩ : ∃ views, (MatchView.ofRounds rounds).rounds[r]? = some views :=
    ⟨_, List.getElem?_eq_getElem hlt⟩
  have hz : (MatchView.ofRounds rounds).rounds.zipIdx[r]? = some (views, r) := by
    simp [List.getElem?_zipIdx, hviews]
  rw [← MatchView.views_ofRounds hviews]
  exact forall₂_getElem? hall hz hr

theorem length_of_buildSchedule {l : StatsLookup} {pairing : Pairing}
    {rounds : List OpponentRound} {s : Schedule} (h : buildSchedule l pairing rounds = .ok s) :
    s.rounds.length = roundCount := by
  unfold buildSchedule scheduleOf at h
  simp only [MatchView.get?_profiles_ofRounds, bind_eq_ok, pure_eq_ok] at h
  obtain ⟨rs, hrs, rfl⟩ := h
  rw [← (mapM_eq_ok.mp hrs).length_eq, List.length_zipIdx]
  simp [MatchView.ofRounds]

/-- For a pairing without repeated pairs, a schedule worked out without a fault keeps every
promise of `ScheduleSpec`. -/
theorem buildSchedule_spec {l : StatsLookup} {pairing : Pairing} (hdistinct : pairing.pairs.Nodup)
    {rounds : List OpponentRound} {s : Schedule} (h : buildSchedule l pairing rounds = .ok s) :
    ScheduleSpec l pairing rounds s := by
  have hround : ∀ slots ∈ s.rounds, ∃ r, s.rounds[r]? = some slots := fun _ hs =>
    List.getElem?_of_mem hs
  refine ⟨length_of_buildSchedule h, fun slots hs => ?_, fun r k slots a hr hk => ?_,
    fun slots hs => ?_⟩
  · obtain ⟨r, hr⟩ := hround slots hs
    rw [(scheduleRound_play hdistinct (round_of_buildSchedule h hr)).1]
    simp
  · obtain ⟨v, hv, hm, ho⟩ := (scheduleRound_play hdistinct (round_of_buildSchedule h hr)).2.1 k a hk
    have hk' : k < slotCount := by simpa using (List.getElem?_eq_some_iff.mp hv).1
    simp only [List.getElem?_map, List.getElem?_range hk', Option.map_some, Option.some.injEq] at hv
    rw [hm, ho, ← hv]
    exact ⟨rfl, rfl⟩
  · obtain ⟨r, hr⟩ := hround slots hs
    exact (scheduleRound_play hdistinct (round_of_buildSchedule h hr)).2.2

theorem estimates_of_buildSchedule {l : StatsLookup} {pairing : Pairing}
    {rounds : List OpponentRound} {s : Schedule} (h : buildSchedule l pairing rounds = .ok s)
    {r k : Nat} (hr : r < roundCount) (hk : k < slotCount) {p : Pair} (hp : p ∈ pairing.pairs) :
    ∃ e, SlotView.estimate l ⟨slotType r k, opponentAt rounds r k⟩ p = .ok e := by
  obtain ⟨slots, hslots⟩ : ∃ slots, s.rounds[r]? = some slots :=
    ⟨_, List.getElem?_eq_getElem (by rw [length_of_buildSchedule h]; exact hr)⟩
  exact (scheduleRound_of_ok (round_of_buildSchedule h hslots)).1 _
    (List.mem_map.mpr ⟨k, List.mem_range.mpr hk, rfl⟩) p hp

/-! ### Usage and score -/

theorem sum_map_ite_eq_count {α : Type} [DecidableEq α] (q : α) :
    ∀ xs : List α, (xs.map fun p => if q = p then 1 else 0).sum = xs.count q
  | [] => rfl
  | x :: xs => by
    rw [List.map_cons, List.sum_cons, sum_map_ite_eq_count q xs, List.count_cons]
    by_cases h : q = x
    · subst h
      simp [Nat.add_comm]
    · simp [h, Ne.symm h]

theorem sum_map_ite_eq_one {α : Type} [DecidableEq α] {q : α} {xs : List α} (hd : xs.Nodup)
    (hq : q ∈ xs) : (xs.map fun p => if q = p then 1 else 0).sum = 1 := by
  rw [sum_map_ite_eq_count, List.count_eq_one_of_mem hd hq]

theorem length_filter_filled {pairs : List Pair} (hdistinct : pairs.Nodup) :
    ∀ {slots : List SlotAssignment}, (∀ a ∈ slots, ∀ p, a.ours = some p → p ∈ pairs) →
      (slots.filter (·.ours.isSome)).length =
        (pairs.map fun p => (slots.filter (·.ours == some p)).length).sum
  | [], _ => by simp
  | a :: slots, hmem => by
    have ih := length_filter_filled hdistinct fun b hb => hmem b (List.mem_cons_of_mem a hb)
    have hsplit : (pairs.map fun p => ((a :: slots).filter (·.ours == some p)).length) =
        pairs.map fun p => (if a.ours = some p then 1 else 0) +
          (slots.filter (·.ours == some p)).length := by
      refine List.map_congr_left fun p _ => ?_
      by_cases h : a.ours = some p <;> simp [h, Nat.add_comm]
    rw [hsplit, List.sum_map_add, ← ih]
    cases hours : a.ours with
    | none => simp [hours]
    | some q =>
      simp only [Option.some.injEq]
      rw [sum_map_ite_eq_one hdistinct (hmem a List.mem_cons_self q hours)]
      simp [hours, Nat.add_comm]

theorem length_filter_pair {p : Pair} :
    ∀ {rounds : List (List SlotAssignment)},
      (∀ slots ∈ rounds, slots.countP (·.ours == some p) ≤ 1) →
      (rounds.flatten.filter (·.ours == some p)).length =
        (rounds.filter fun slots => slots.any (·.ours == some p)).length
  | [], _ => rfl
  | slots :: rounds, honce => by
    have ih := length_filter_pair fun r hr => honce r (List.mem_cons_of_mem slots hr)
    have hone := honce slots List.mem_cons_self
    rw [List.flatten_cons, List.filter_append, List.length_append, ih, ← List.countP_eq_length_filter,
      List.filter_cons]
    by_cases hany : slots.any (·.ours == some p) = true
    · have hpos : 0 < slots.countP (·.ours == some p) :=
        List.countP_pos_iff.mpr (List.any_eq_true.mp hany)
      simp only [hany, if_true, List.length_cons]
      omega
    · have hzero : slots.countP (·.ours == some p) = 0 := List.countP_eq_zero.mpr fun a ha hp =>
        hany (List.any_eq_true.mpr ⟨a, ha, hp⟩)
      simp only [hany, Bool.false_eq_true, if_false, hzero]
      omega

theorem pairUsage_of_spec {l : StatsLookup} {pairing : Pairing} (hdistinct : pairing.pairs.Nodup)
    {rounds : List OpponentRound} {s : Schedule} (hs : ScheduleSpec l pairing rounds s) :
    s.filled = ((s.pairUsage pairing).map (·.2)).sum ∧
      ∀ u ∈ s.pairUsage pairing,
        u.2 = (s.rounds.filter fun slots => slots.any (·.ours == some u.1)).length ∧
          u.2 ≤ roundCount := by
  refine ⟨?_, fun u hu => ?_⟩
  · rw [Schedule.filled, Schedule.pairUsage, List.map_map]
    refine length_filter_filled hdistinct fun a ha p hp => ?_
    obtain ⟨slots, hslots, ha⟩ := List.mem_flatten.mp ha
    exact ((hs.play slots hslots).admitted a ha p hp).1
  · obtain ⟨p, -, rfl⟩ := List.mem_map.mp hu
    have hrounds := length_filter_pair (p := p) fun slots hslots => (hs.play slots hslots).once p
    refine ⟨hrounds, ?_⟩
    dsimp only [Schedule.slots]
    rw [hrounds, ← hs.length]
    exact List.length_filter_le _ _

theorem knownScore_of_ok {l : StatsLookup} {pairing : Pairing} {rounds : List OpponentRound}
    {q : Float} {aggregation : Aggregation} {score : Score} {s : Schedule}
    (h : knownScore pairing rounds l q aggregation = .ok (score, s)) :
    buildSchedule l pairing rounds = .ok s ∧ score.games = s.filled ∧
      score.expectedWins = Sample.sum s.slotWins := by
  unfold knownScore knownScoreOf at h
  rw [bind_eq_ok] at h
  obtain ⟨s', hs', h⟩ := h
  simp only [bind_eq_ok, pure_eq_ok, Prod.mk.injEq] at h
  obtain ⟨c, -, rfl, rfl⟩ := h
  exact ⟨hs', rfl, rfl⟩

/-- The greedy schedule of a pairing without repeated pairs, against any opponent lineup: it is
worked out whenever the blender's bounds are in order, and whenever it is worked out it has
eight rounds of four slots of the template's categories and the opponent's pairs, no pair
plays twice in a round, every pair plays only where admitted and with that slot's estimate,
an empty slot is a forfeit, and no empty slot admits a pair left idle in its round. The
score counts a game per filled slot, which is the pairs' usages summed, each usage the
number of rounds the pair plays; its expected wins are the slots' probabilities summed. -/
theorem buildSchedule_greedy_maximal (l : StatsLookup) {pairing : Pairing}
    (hdistinct : pairing.pairs.Nodup) (rounds : List OpponentRound) :
    (l.blender.bounds.lower ≤ l.blender.bounds.upper →
      ∃ s, buildSchedule l pairing rounds = .ok s ∧
        ∀ q aggregation, ∃ score, knownScore pairing rounds l q aggregation = .ok (score, s)) ∧
    ∀ s, buildSchedule l pairing rounds = .ok s →
      ScheduleSpec l pairing rounds s ∧
      s.filled = ((s.pairUsage pairing).map (·.2)).sum ∧
      (∀ u ∈ s.pairUsage pairing,
        u.2 = (s.rounds.filter fun slots => slots.any (·.ours == some u.1)).length ∧
          u.2 ≤ roundCount) ∧
      ∀ q aggregation score s', knownScore pairing rounds l q aggregation = .ok (score, s') →
        s' = s ∧ score.games = s.filled ∧ score.expectedWins = Sample.sum s.slotWins := by
  refine ⟨fun hl => ?_, fun s hs => ?_⟩
  · obtain ⟨s, hs⟩ := scheduleOf_ok hl pairing (MatchView.ofRounds rounds)
    refine ⟨s, hs, fun q aggregation => ?_⟩
    obtain ⟨⟨score, s'⟩, hr⟩ := knownScoreOf_ok hl pairing (MatchView.ofRounds rounds) q aggregation
    have hsame := (knownScore_of_ok hr).1
    rw [show buildSchedule l pairing rounds = .ok s from hs] at hsame
    cases hsame
    exact ⟨score, hr⟩
  · have hspec := buildSchedule_spec hdistinct hs
    obtain ⟨hfilled, husage⟩ := pairUsage_of_spec hdistinct hspec
    refine ⟨hspec, hfilled, husage, fun q aggregation score s' hscore => ?_⟩
    obtain ⟨hs', hgames, hwins⟩ := knownScore_of_ok hscore
    rw [hs] at hs'
    cases hs'
    exact ⟨rfl, hgames, hwins⟩

theorem buildSchedule_greedy_maximal_of_two_pairs :
    let l := StatsLookup.ofBundle {} .scoring
    let pairing : Pairing := ⟨[⟨"a", "b"⟩, ⟨"c", "d"⟩]⟩
    pairing.pairs.Nodup ∧ ∃ s, buildSchedule l pairing [] = .ok s ∧ ScheduleSpec l pairing [] s := by
  intro l pairing
  have hdistinct : pairing.pairs.Nodup := by decide
  have hl : l.blender.bounds.lower ≤ l.blender.bounds.upper := by decide
  obtain ⟨s, hs, -⟩ := (buildSchedule_greedy_maximal l hdistinct []).1 hl
  exact ⟨hdistinct, s, hs, ((buildSchedule_greedy_maximal l hdistinct []).2 s hs).1⟩

/-- With its bounds out of order a blender cannot clamp, so a pair with a statistic for the
first slot's category leaves no schedule to be worked out. -/
theorem buildSchedule_faults_on_reversed_bounds :
    let stat : CandidateStat := ⟨"a", "b", .mixed, 0.6, none, 0.0, none⟩
    let l := StatsLookup.ofBundle { candidatePairs := [stat] } ⟨⟨0.9, 0.1⟩, 0.5⟩
    ∀ s, buildSchedule l ⟨[⟨"a", "b"⟩]⟩ [] ≠ .ok s := by
  intro stat l s hs
  have hr : 0 < roundCount := by decide
  have hk : 0 < slotCount := by decide
  obtain ⟨e, he⟩ := estimates_of_buildSchedule hs hr hk List.mem_cons_self
  have hordered : Pair.Ordered ⟨"a", "b"⟩ := show "a" < "b" by decide
  simp only [SlotView.estimate, l, StatsLookup.gender_ofBundle, StatsLookup.candidate_some,
    StatsLookup.candidates_get?_ofBundle _ _ hordered] at he
  have hok := congrArg Except.isOk he
  rw [show (Except.ok e : Except Fault (Option WinEstimate)).isOk = true from rfl] at hok
  revert hok
  decide

end DoublesLineup
