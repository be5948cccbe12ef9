import DoublesLineup.Schedule.Known
import DoublesLineup.Proofs.Estimate.Lookup
/-! # The greedy scheduler answers, and answers alike when prepared

With the blender's bounds in order every slot estimate is found, so every round has its
candidates. Each candidate names a slot of its round and a pair of the pairing, since the
candidates are built slot by slot and pair by pair (`roundCandidates_within`); the greedy
assignment therefore never reads past the round's slots or the pairing's pairs, and every
pairing gets a schedule and a score (`knownScoreOf_ok`).

A match view carries slot profiles worked out in advance. It is faithful when each entry of a
profile is the estimate of its slot; `MatchView.prepare` keeps a view faithful, and with
faithful profiles the scheduler schedules as with none (`scheduleOf_congr`). So scoring against
a prepared view, with the lookup that remembers its own estimates, gives `knownScore`
(`knownScoreOf_prepare`).
-/

namespace DoublesLineup

theorem SlotView.estimate_rememberOwn (l : StatsLookup) (pairs : List Pair) :
    SlotView.estimate (l.rememberOwn pairs) = SlotView.estimate l := rfl

/-- A candidate names one of `slots` slots and one of `pairs` pairs. -/
def Candidate.Within (slots pairs : Nat) (c : Candidate) : Prop :=
  c.slot < slots ∧ c.pairIndex < pairs

section Total

variable {l : StatsLookup} (hl : l.blender.bounds.lower ≤ l.blender.bounds.upper)
include hl

theorem SlotView.estimate_ok (v : SlotView) (p : Pair) : ∃ e, v.estimate l p = .ok e := by
  unfold SlotView.estimate
  split
  · split
    · obtain ⟨e, he⟩ := StatsLookup.matchup_ok hl p _ (some v.matchType)
      exact ⟨some e, by rw [he]; rfl⟩
    · obtain ⟨e, he⟩ := StatsLookup.candidate_ok hl p (some v.matchType)
      exact ⟨some e, by rw [he]; rfl⟩
  · exact ⟨none, rfl⟩

theorem slotEstimate_ok (v : SlotView) (profile : Option SlotProfile) (round slot : Nat)
    (p : Pair) : ∃ e, slotEstimate l v profile round slot p = .ok e := by
  unfold slotEstimate
  split
  · exact ⟨_, rfl⟩
  · exact v.estimate_ok hl p

theorem slotCandidates_ok (v : SlotView) (round slot : Nat)
    (ours : List (Pair × Option SlotProfile)) (i : Nat) (acc : List Candidate) :
    ∃ cs, slotCandidates l v round slot ours i acc = .ok cs := by
  induction ours generalizing i acc with
  | nil => exact ⟨acc, rfl⟩
  | cons entry rest ih =>
    obtain ⟨p, profile⟩ := entry
    obtain ⟨e, he⟩ := slotEstimate_ok hl v profile round slot p
    rw [slotCandidates, he]
    cases e with
    | some e => exact ih (i + 1) _
    | none => exact ih (i + 1) acc

theorem slotsCandidates_ok (ours : List (Pair × Option SlotProfile)) (round : Nat)
    (slots : List SlotView) (slot : Nat) (acc : List Candidate) :
    ∃ cs, slotsCandidates l ours round slots slot acc = .ok cs := by
  induction slots generalizing slot acc with
  | nil => exact ⟨acc, rfl⟩
  | cons v rest ih =>
    obtain ⟨acc', hacc'⟩ := slotCandidates_ok hl v round slot ours 0 acc
    obtain ⟨cs, hcs⟩ := ih (slot + 1) acc'
    exact ⟨cs, by rw [slotsCandidates, hacc']; exact hcs⟩

theorem roundCandidates_ok (ours : List (Pair × Option SlotProfile)) (round : Nat)
    (slots : List SlotView) : ∃ cs, roundCandidates l ours round slots = .ok cs := by
  obtain ⟨cs, hcs⟩ := slotsCandidates_ok hl ours round slots 0 []
  exact ⟨cs.reverse, by rw [roundCandidates, hcs]; rfl⟩

end Total

theorem slotCandidates_within {l : StatsLookup} {v : SlotView} {round slot slots pairs : Nat}
    (hslot : slot < slots) {ours : List (Pair × Option SlotProfile)} {i : Nat}
    {acc cs : List Candidate} (h : slotCandidates l v round slot ours i acc = .ok cs)
    (hlen : i + ours.length ≤ pairs) (hacc : ∀ c ∈ acc, c.Within slots pairs) :
    ∀ c ∈ cs, c.Within slots pairs := by
  induction ours generalizing i acc with
  | nil =>
    rw [slotCandidates, pure_eq_ok] at h
    exact h ▸ hacc
  | cons entry rest ih =>
    obtain ⟨p, profile⟩ := entry
    rw [slotCandidates, bind_eq_ok] at h
    obtain ⟨e, -, h⟩ := h
    have hlen' : i + 1 + rest.length ≤ pairs := by
      simp only [List.length_cons] at hlen
      omega
    cases e with
    | some e =>
      refine ih h hlen' fun c hc => ?_
      rcases List.mem_cons.mp hc with rfl | hc
      · refine ⟨hslot, ?_⟩
        show i < pairs
        simp only [List.length_cons] at hlen
        omega
      · exact hacc c hc
    | none => exact ih h hlen' hacc

theorem slotsCandidates_within {l : StatsLookup} {ours : List (Pair × Option SlotProfile)}
    {round slots : Nat} {views : List SlotView} {slot : Nat} {acc cs : List Candidate}
    (h : slotsCandidates l ours round views slot acc = .ok cs)
    (hlen : slot + views.length ≤ slots) (hacc : ∀ c ∈ acc, c.Within slots ours.length) :
    ∀ c ∈ cs, c.Within slots ours.length := by
  induction views generalizing slot acc with
  | nil =>
    rw [slotsCandidates, pure_eq_ok] at h
    exact h ▸ hacc
  | cons v rest ih =>
    rw [slotsCandidates, bind_eq_ok] at h
    obtain ⟨acc', hacc', h⟩ := h
    simp only [List.length_cons] at hlen
    exact ih h (by omega) (slotCandidates_within (by omega) hacc' (by omega) hacc)

theorem roundCandidates_within {l : StatsLookup} {ours : List (Pair × Option SlotProfile)}
    {round : Nat} {views : List SlotView} {cs : List Candidate}
    (h : roundCandidates l ours round views = .ok cs) :
    ∀ c ∈ cs, c.Within views.length ours.length := by
  rw [roundCandidates, bind_eq_ok] at h
  obtain ⟨cs', hcs', h⟩ := h
  rw [pure_eq_ok] at h
  subst h
  intro c hc
  exact slotsCandidates_within hcs' (by omega) (by simp) c (List.mem_reverse.mp hc)

theorem assignStep_ok {pairing : Pairing} {acc : List SlotAssignment × List Nat × List Nat}
    {c : Candidate} (hc : c.Within acc.1.length pairing.pairs.length) :
    ∃ acc', assignStep pairing acc c = .ok acc' ∧ acc'.1.length = acc.1.length := by
  obtain ⟨slots, slotTaken, pairTaken⟩ := acc
  obtain ⟨hslot, hpair⟩ := hc
  unfold assignStep
  dsimp only
  rw [if_pos hslot]
  by_cases hs : c.slot ∈ slotTaken
  · exact ⟨(slots, slotTaken, pairTaken), by simp [hs], rfl⟩
  · by_cases hp : c.pairIndex ∈ pairTaken
    · exact ⟨(slots, slotTaken, pairTaken), by simp [hs, hp, Pairing.pairAt_of_lt hpair], rfl⟩
    · refine ⟨(slots.modify c.slot fun a =>
          { a with ours := some pairing.pairs[c.pairIndex], estimate := c.estimate },
        c.slot :: slotTaken, c.pairIndex :: pairTaken), ?_, List.length_modify ..⟩
      simp [hs, hp, Pairing.pairAt_of_lt hpair]

theorem assignGreedy_ok {pairing : Pairing} {candidates : List Candidate}
    {start : List SlotAssignment}
    (h : ∀ c ∈ candidates, c.Within start.length pairing.pairs.length) :
    ∃ a, assignGreedy pairing candidates start = .ok a := by
  unfold assignGreedy
  apply bind_ok_of_ok
  · -- the assignments keep the length of `start`, so every candidate stays within them
    obtain ⟨acc, hacc, -⟩ := foldlM_ok_of_step (f := assignStep pairing)
      (fun acc => acc.1.length = start.length) (b := (start, [], [])) rfl
      fun acc c hc hlen => by
        obtain ⟨acc', hstep, hlen'⟩ := assignStep_ok (by rw [hlen]; exact h c hc)
        exact ⟨acc', hstep, hlen'.trans hlen⟩
    exact ⟨acc, hacc⟩
  · intro acc _
    obtain ⟨assigned, _, _⟩ := acc
    exact ⟨assigned, rfl⟩

section Total

variable {l : StatsLookup} (hl : l.blender.bounds.lower ≤ l.blender.bounds.upper)
include hl

theorem scheduleRound_ok (pairing : Pairing) {ours : List (Pair × Option SlotProfile)}
    (hours : ours.length = pairing.pairs.length) (round : Nat) (views : List SlotView) :
    ∃ a, scheduleRound l pairing ours round views = .ok a := by
  obtain ⟨cs, hcs⟩ := roundCandidates_ok hl ours round views
  have within := roundCandidates_within hcs
  unfold scheduleRound
  rw [hcs]
  apply assignGreedy_ok
  intro c hc
  rw [List.mem_mergeSort] at hc
  simpa [hours] using within c hc

theorem scheduleOf_ok (pairing : Pairing) (m : MatchView) :
    ∃ s, scheduleOf l pairing m = .ok s := by
  unfold scheduleOf
  apply bind_ok_of_ok
  · apply mapM_ok_of_forall
    rintro ⟨views, round⟩ -
    exact scheduleRound_ok hl pairing (by simp) round views
  · exact fun _ _ => ⟨_, rfl⟩

/-- Every pairing has a schedule and a score against the match. -/
theorem knownScoreOf_ok (pairing : Pairing) (m : MatchView) (q : Float)
    (aggregation : Aggregation) : ∃ r, knownScoreOf l pairing m q aggregation = .ok r := by
  obtain ⟨s, hs⟩ := scheduleOf_ok hl pairing m
  obtain ⟨c, hc⟩ := l.gameCoverage_ok hl pairing
  unfold knownScoreOf
  rw [hs]
  simp only [hc]
  exact ⟨_, rfl⟩

end Total

namespace MatchView

/-- Every entry of a profile worked out in advance is the estimate of its slot. -/
def Faithful (l : StatsLookup) (m : MatchView) : Prop :=
  ∀ p profile, m.profiles.get? p = some profile →
    ∀ (round slot : Nat) (v : SlotView) (e : Option WinEstimate),
      (m.rounds[round]?.bind (·[slot]?)) = some v → (profile[round]?.bind (·[slot]?)) = some e →
      v.estimate l p = .ok e

theorem ofRounds_faithful (l : StatsLookup) (rounds : List OpponentRound) :
    (ofRounds rounds).Faithful l := by
  unfold Faithful
  intro p profile h
  simp [ofRounds] at h

theorem profile_faithful {l : StatsLookup} {rounds : List (List SlotView)} {p : Pair}
    {rows : List (List (Option WinEstimate))}
    (h : rounds.mapM (fun slots => slots.mapM (·.estimate l p)) = .ok rows) :
    ∀ (round slot : Nat) (v : SlotView) (e : Option WinEstimate),
      (rounds[round]?.bind (·[slot]?)) = some v →
      (((rows.map List.toArray).toArray)[round]?.bind (·[slot]?)) = some e →
      v.estimate l p = .ok e := by
  intro round slot v e hv he
  obtain ⟨views, hviews, hv⟩ := Option.bind_eq_some_iff.mp hv
  simp only [List.getElem?_toArray, List.getElem?_map, Option.bind_map, Function.comp_def,
    Option.bind_eq_some_iff] at he
  obtain ⟨row, hrow, he⟩ := he
  exact mapM_eq_ok_getElem? (mapM_eq_ok_getElem? h hviews hrow) hv he

theorem prepare_faithful {l : StatsLookup} {m : MatchView} (hm : m.Faithful l)
    (pairs : List Pair) : (m.prepare l pairs).Faithful l := by
  refine List.foldlRecOn (motive := fun acc : Std.HashMap Pair SlotProfile =>
    ∀ p profile, acc.get? p = some profile →
      ∀ (round slot : Nat) (v : SlotView) (e : Option WinEstimate),
      (m.rounds[round]?.bind (·[slot]?)) = some v →
      (profile[round]?.bind (·[slot]?)) = some e → v.estimate l p = .ok e) pairs _ hm ?_
  intro acc hacc q _
  split
  · exact forall_get?_insert hacc (profile_faithful ‹_›)
  · exact hacc

end MatchView

theorem slotEstimate_of_faithful {l : StatsLookup} {m : MatchView} (hm : m.Faithful l)
    {round slot : Nat} {v : SlotView} (hv : (m.rounds[round]?.bind (·[slot]?)) = some v)
    (p : Pair) : slotEstimate l v (m.profiles.get? p) round slot p = v.estimate l p := by
  unfold slotEstimate
  split
  · rename_i e he
    obtain ⟨profile, hprofile, he⟩ := Option.bind_eq_some_iff.mp he
    exact (hm p profile hprofile round slot v e hv he).symm
  · rfl

/-- Our pairs with two sets of profiles give the same estimates in a slot. -/
def SameEstimates (l l' : StatsLookup) (v : SlotView) (round slot : Nat) :
    List (Pair × Option SlotProfile) → List (Pair × Option SlotProfile) → Prop :=
  List.Forall₂ fun a b =>
    a.1 = b.1 ∧ slotEstimate l v a.2 round slot a.1 = slotEstimate l' v b.2 round slot b.1

theorem slotCandidates_congr {l l' : StatsLookup} {v : SlotView} {round slot : Nat}
    {ours ours' : List (Pair × Option SlotProfile)} (h : SameEstimates l l' v round slot ours ours')
    (i : Nat) (acc : List Candidate) :
    slotCandidates l v round slot ours i acc = slotCandidates l' v round slot ours' i acc := by
  induction h generalizing i acc with
  | nil => rfl
  | @cons a b rest rest' hab _ ih =>
    obtain ⟨p, profile⟩ := a
    obtain ⟨p', profile'⟩ := b
    obtain ⟨rfl, he⟩ := hab
    rw [slotCandidates, slotCandidates, he]
    congr 1
    funext e
    cases e with
    | some e => exact ih (i + 1) _
    | none => exact ih (i + 1) acc

theorem slotsCandidates_congr {l l' : StatsLookup} {ours ours' : List (Pair × Option SlotProfile)}
    {round : Nat} {views : List SlotView} {slot : Nat}
    (h : ∀ k v, views[k]? = some v → SameEstimates l l' v round (slot + k) ours ours')
    (acc : List Candidate) :
    slotsCandidates l ours round views slot acc = slotsCandidates l' ours' round views slot acc := by
  induction views generalizing slot acc with
  | nil => rfl
  | cons v rest ih =>
    have first := h 0 v rfl
    rw [Nat.add_zero] at first
    rw [slotsCandidates, slotsCandidates, slotCandidates_congr first]
    congr 1
    funext acc'
    refine ih (fun k v' hk => ?_) acc'
    have := h (k + 1) v' (by simpa using hk)
    rwa [show slot + (k + 1) = slot + 1 + k by omega] at this

theorem scheduleRound_congr {l l' : StatsLookup} {pairing : Pairing}
    {ours ours' : List (Pair × Option SlotProfile)} {round : Nat} {views : List SlotView}
    (h : ∀ k v, views[k]? = some v → SameEstimates l l' v round k ours ours') :
    scheduleRound l pairing ours round views = scheduleRound l' pairing ours' round views := by
  unfold scheduleRound roundCandidates
  rw [slotsCandidates_congr fun k v hk => by simpa using h k v hk]

theorem scheduleOf_congr {l l' : StatsLookup} {pairing : Pairing} {m m' : MatchView}
    (hr : m'.rounds = m.rounds)
    (h : ∀ round slot v p, (m.rounds[round]?.bind (·[slot]?)) = some v →
      slotEstimate l v (m.profiles.get? p) round slot p =
        slotEstimate l' v (m'.profiles.get? p) round slot p) :
    scheduleOf l pairing m = scheduleOf l' pairing m' := by
  unfold scheduleOf
  rw [hr]
  dsimp only
  congr 1
  apply mapM_congr
  rintro ⟨views, round⟩ hx
  rw [List.mem_zipIdx_iff_getElem?] at hx
  refine scheduleRound_congr fun k v hk => ?_
  rw [SameEstimates, List.forall₂_map_left_iff, List.forall₂_map_right_iff, List.forall₂_same]
  intro p _
  exact ⟨rfl, h round k v p (by simp [hx, hk])⟩

theorem knownScoreOf_prepare {l : StatsLookup} (h : l.OwnFaithful) (pairs : List Pair)
    (pairing : Pairing) (rounds : List OpponentRound) (q : Float) (aggregation : Aggregation) :
    knownScoreOf (l.rememberOwn pairs) pairing
        ((MatchView.ofRounds rounds).prepare (l.rememberOwn pairs) pairs) q aggregation =
      knownScore pairing rounds l q aggregation := by
  have hm := MatchView.prepare_faithful (MatchView.ofRounds_faithful (l.rememberOwn pairs) rounds)
    pairs
  have hs : scheduleOf (l.rememberOwn pairs) pairing
      ((MatchView.ofRounds rounds).prepare (l.rememberOwn pairs) pairs) =
        scheduleOf l pairing (MatchView.ofRounds rounds) := by
    refine scheduleOf_congr rfl fun round slot v p hv => ?_
    rw [slotEstimate_of_faithful hm hv p,
      slotEstimate_of_faithful (MatchView.ofRounds_faithful l rounds) hv p,
      SlotView.estimate_rememberOwn]
  unfold knownScore knownScoreOf
  rw [hs, StatsLookup.gameCoverage_rememberOwn h]

end DoublesLineup
