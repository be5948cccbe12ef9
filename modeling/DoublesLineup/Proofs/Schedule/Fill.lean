import Mathlib.Data.List.Nodup
import DoublesLineup.Proofs.Schedule.Greedy
/-! # With every gender known, the greedy schedule fills as many slots as possible

When both players of every pair have a known gender, each pair has a composition and a slot
admits it exactly when the slot's category is that composition. Which pairs may play which slots
then splits into one block per category: every slot of a category admits every pair of that
composition and no other. No assignment fills more slots of a category than the category has,
nor than there are pairs of its composition (`RoundAssignment.filled_le_fillBound`).

The greedy round leaves a slot empty only when every pair the slot admits plays elsewhere, so in
each block it fills every slot or places every pair, which is the most (`fillBound`). A round of
the schedule therefore fills exactly `fillBound` slots, in a mixed round the fewer of four and the
mixed pairs, in a gendered round the fewer of two and the women's pairs plus the fewer of two and
the men's pairs (`buildSchedule_fills_most_slots`).

The counting is done on the round's cells: each slot's category with the pair in it, if any.
-/

namespace DoublesLineup

namespace MatchType

theorem ofGenders_isSome {g₁ g₂ : Option Gender} (h₁ : g₁.isSome) (h₂ : g₂.isSome) :
    (ofGenders g₁ g₂).isSome := by
  obtain ⟨a, rfl⟩ := Option.isSome_iff_exists.mp h₁
  obtain ⟨b, rfl⟩ := Option.isSome_iff_exists.mp h₂
  cases a <;> cases b <;> rfl

theorem admits_iff_of_ofGenders {t c : MatchType} {g₁ g₂ : Option Gender}
    (h : ofGenders g₁ g₂ = some c) : t.admits g₁ g₂ = true ↔ c = t := by
  simp [admits, h]

end MatchType

/-- Our pairs in the slots of a round of categories `types`: one pair or none in each slot, each
pair admitted by its slot's category, and no pair in two slots. -/
structure RoundAssignment (l : StatsLookup) (pairs : List Pair) (types : List MatchType)
    (choice : List (Option Pair)) : Prop where
  /-- One choice per slot. -/
  length : choice.length = types.length
  /-- A pair placed is one of ours, and its slot's category admits it. -/
  admitted : ∀ t p, (t, some p) ∈ types.zip choice →
    p ∈ pairs ∧ t.admits (l.gender p.low) (l.gender p.high) = true
  /-- No pair is placed twice. -/
  once : (choice.filterMap id).Nodup

/-- The most slots of categories `types` our pairs can fill when every gender is known: for each
category, the fewer of its slots and of our pairs of that composition. -/
def fillBound (l : StatsLookup) (pairs : List Pair) (types : List MatchType) : Nat :=
  (MatchType.all.map fun t =>
    min (types.count t) (pairs.countP fun p => l.composition p == some t)).sum

/-- The pairs in the cells of category `t`. -/
def playedIn (t : MatchType) (cells : List (MatchType × Option Pair)) : List Pair :=
  (cells.filter (·.1 == t)).filterMap (·.2)

/-! ### Counting the cells of a round -/

section Cells

variable {l : StatsLookup} {pairs : List Pair} {cells : List (MatchType × Option Pair)}
  (t : MatchType)

theorem length_filter_isSome_eq_sum (cells : List (MatchType × Option Pair)) :
    (cells.filter (·.2.isSome)).length =
      (MatchType.all.map fun t => (cells.filter fun c => c.1 == t && c.2.isSome).length).sum := by
  induction cells with
  | nil => rfl
  | cons c cells ih =>
    obtain ⟨t, o⟩ := c
    simp only [MatchType.all, List.map_cons, List.map_nil, List.sum_cons, List.sum_nil] at ih ⊢
    cases t <;> cases o <;> simp [ih] <;> omega

theorem length_playedIn (cells : List (MatchType × Option Pair)) :
    (playedIn t cells).length = (cells.filter fun c => c.1 == t && c.2.isSome).length := by
  rw [playedIn, List.length_filterMap_eq_countP, List.countP_filter,
    List.countP_eq_length_filter]
  exact congrArg List.length (List.filter_congr fun c _ => Bool.and_comm _ _)

theorem filled_le_slots (cells : List (MatchType × Option Pair)) :
    (cells.filter fun c => c.1 == t && c.2.isSome).length ≤ (cells.map Prod.fst).count t := by
  rw [← List.countP_eq_length_filter, List.count_eq_countP, List.countP_map]
  refine List.countP_mono_left fun c _ h => ?_
  simp only [Bool.and_eq_true] at h
  simpa using h.1

variable (hadmitted : ∀ c ∈ cells, ∀ p, c.2 = some p →
    p ∈ pairs ∧ c.1.admits (l.gender p.low) (l.gender p.high) = true)
include hadmitted

theorem composition_of_mem_playedIn (hknown : ∀ p ∈ pairs, (l.composition p).isSome) {p : Pair}
    (hp : p ∈ playedIn t cells) : p ∈ pairs ∧ l.composition p = some t := by
  simp only [playedIn, List.mem_filterMap, List.mem_filter, beq_iff_eq] at hp
  obtain ⟨c, ⟨hc, rfl⟩, hcp⟩ := hp
  obtain ⟨hpairs, hadmits⟩ := hadmitted c hc p hcp
  obtain ⟨k, hk⟩ := Option.isSome_iff_exists.mp (hknown p hpairs)
  exact ⟨hpairs, hk ▸ congrArg some ((MatchType.admits_iff_of_ofGenders hk).mp hadmits)⟩

theorem filled_le_pairs (hknown : ∀ p ∈ pairs, (l.composition p).isSome)
    (honce : (cells.filterMap (·.2)).Nodup) :
    (cells.filter fun c => c.1 == t && c.2.isSome).length ≤
      pairs.countP fun p => l.composition p == some t := by
  have hnodup : (playedIn t cells).Nodup :=
    honce.sublist ((List.filter_sublist).filterMap _)
  have hsub : playedIn t cells ⊆ pairs.filter fun p => l.composition p == some t := fun p hp => by
    obtain ⟨hpairs, hcomp⟩ := composition_of_mem_playedIn t hadmitted hknown hp
    simp [hpairs, hcomp]
  rw [← length_playedIn, List.countP_eq_length_filter]
  exact (List.subperm_of_subset hnodup hsub).length_le

theorem pairs_le_filled (hdistinct : pairs.Nodup)
    (hmaximal : ∀ c ∈ cells, c.2 = none → ∀ p ∈ pairs,
      c.1.admits (l.gender p.low) (l.gender p.high) = true → ∃ c' ∈ cells, c'.2 = some p)
    (hempty : ∃ c ∈ cells, c.1 = t ∧ c.2 = none) :
    (pairs.countP fun p => l.composition p == some t) ≤
      (cells.filter fun c => c.1 == t && c.2.isSome).length := by
  obtain ⟨c, hc, rfl, hnone⟩ := hempty
  have hsub : pairs.filter (fun p => l.composition p == some c.1) ⊆ playedIn c.1 cells := by
    intro p hp
    simp only [List.mem_filter, beq_iff_eq] at hp
    obtain ⟨c', hc', hp'⟩ := hmaximal c hc hnone p hp.1
      ((MatchType.admits_iff_of_ofGenders hp.2).mpr rfl)
    have hcat := (MatchType.admits_iff_of_ofGenders hp.2).mp (hadmitted c' hc' p hp').2
    simp only [playedIn, List.mem_filterMap, List.mem_filter, beq_iff_eq]
    exact ⟨c', ⟨hc', hcat.symm⟩, hp'⟩
  rw [← length_playedIn, List.countP_eq_length_filter]
  exact (List.subperm_of_subset (hdistinct.filter _) hsub).length_le

theorem filled_le_fillBound (hknown : ∀ p ∈ pairs, (l.composition p).isSome)
    (honce : (cells.filterMap (·.2)).Nodup) :
    (cells.filter (·.2.isSome)).length ≤ fillBound l pairs (cells.map Prod.fst) := by
  have hle : ∀ t, (cells.filter fun c => c.1 == t && c.2.isSome).length ≤
      min ((cells.map Prod.fst).count t) (pairs.countP fun p => l.composition p == some t) :=
    fun t => le_min (filled_le_slots t cells) (filled_le_pairs t hadmitted hknown honce)
  rw [length_filter_isSome_eq_sum, fillBound]
  simp only [MatchType.all, List.map_cons, List.map_nil, List.sum_cons, List.sum_nil]
  have := hle .mixed
  have := hle .female
  have := hle .male
  omega

theorem filled_eq_fillBound (hknown : ∀ p ∈ pairs, (l.composition p).isSome)
    (hdistinct : pairs.Nodup) (honce : (cells.filterMap (·.2)).Nodup)
    (hmaximal : ∀ c ∈ cells, c.2 = none → ∀ p ∈ pairs,
      c.1.admits (l.gender p.low) (l.gender p.high) = true → ∃ c' ∈ cells, c'.2 = some p) :
    (cells.filter (·.2.isSome)).length = fillBound l pairs (cells.map Prod.fst) := by
  have heq : ∀ t, (cells.filter fun c => c.1 == t && c.2.isSome).length =
      min ((cells.map Prod.fst).count t) (pairs.countP fun p => l.composition p == some t) := by
    intro t
    have hslots := filled_le_slots t cells
    have hpairs := filled_le_pairs t hadmitted hknown honce
    by_cases hempty : ∃ c ∈ cells, c.1 = t ∧ c.2 = none
    · have := pairs_le_filled t hadmitted hdistinct hmaximal hempty
      omega
    · -- every cell of category `t` is filled
      have hall : (cells.filter fun c => c.1 == t && c.2.isSome).length =
          (cells.map Prod.fst).count t := by
        rw [← List.countP_eq_length_filter, List.count_eq_countP, List.countP_map]
        refine List.countP_congr fun c hc => ?_
        cases ho : c.2 with
        | none => simpa [ho] using fun h => hempty ⟨c, hc, h, ho⟩
        | some p => simp
      omega
  rw [length_filter_isSome_eq_sum, fillBound]
  simp only [MatchType.all, List.map_cons, List.map_nil, List.sum_cons, List.sum_nil, heq]

end Cells

/-! ### Assignments of a round -/

section Assignment

variable {l : StatsLookup} {pairs : List Pair} {types : List MatchType}
  {choice : List (Option Pair)}

namespace RoundAssignment

variable (h : RoundAssignment l pairs types choice)
include h

theorem map_fst_cells : (types.zip choice).map Prod.fst = types :=
  List.map_fst_zip (Nat.le_of_eq h.length.symm)

theorem map_snd_cells : (types.zip choice).map Prod.snd = choice :=
  List.map_snd_zip (Nat.le_of_eq h.length)

theorem cells_admitted : ∀ c ∈ types.zip choice, ∀ p, c.2 = some p →
    p ∈ pairs ∧ c.1.admits (l.gender p.low) (l.gender p.high) = true := by
  rintro ⟨t, o⟩ hc p rfl
  exact h.admitted t p hc

theorem cells_once : ((types.zip choice).filterMap (·.2)).Nodup := by
  have hcells : (types.zip choice).filterMap (·.2) =
      ((types.zip choice).map Prod.snd).filterMap id := by
    rw [List.filterMap_map]
    rfl
  rw [hcells, h.map_snd_cells]
  exact h.once

theorem filled_le_fillBound (hknown : ∀ p ∈ pairs, (l.composition p).isSome) :
    (choice.filter (·.isSome)).length ≤ fillBound l pairs types := by
  have hfilled : (choice.filter (·.isSome)).length =
      ((types.zip choice).filter (·.2.isSome)).length := by
    conv_lhs => rw [← h.map_snd_cells]
    rw [List.filter_map, List.length_map]
    rfl
  have hbound := DoublesLineup.filled_le_fillBound h.cells_admitted hknown h.cells_once
  rwa [h.map_fst_cells, ← hfilled] at hbound

end RoundAssignment

end Assignment

/-! ### The greedy round -/

section Greedy

variable {l : StatsLookup} {pairing : Pairing} {slots : List SlotAssignment}

theorem zip_map_matchType_ours :
    (slots.map (·.matchType)).zip (slots.map (·.ours)) = slots.map fun a => (a.matchType, a.ours) :=
  List.zip_map'

theorem RoundPlay.nodup_played (h : RoundPlay l pairing slots) :
    (slots.filterMap (·.ours)).Nodup := by
  rw [List.nodup_iff_count_le_one]
  intro p
  rw [List.count_eq_countP, List.countP_filterMap]
  refine le_of_eq_of_le (List.countP_congr fun a _ => ?_) (h.once p)
  cases a.ours <;> simp

theorem RoundPlay.roundAssignment (h : RoundPlay l pairing slots) :
    RoundAssignment l pairing.pairs (slots.map (·.matchType)) (slots.map (·.ours)) where
  length := by simp
  admitted t p hp := by
    rw [zip_map_matchType_ours, List.mem_map] at hp
    obtain ⟨a, ha, hap⟩ := hp
    simp only [Prod.mk.injEq] at hap
    exact hap.1 ▸ h.admitted a ha p hap.2
  once := by
    rw [List.filterMap_map]
    exact h.nodup_played

/-- With every gender known, a round played as promised fills exactly `fillBound` slots. -/
theorem RoundPlay.filled_eq_fillBound (h : RoundPlay l pairing slots)
    (hknown : ∀ p ∈ pairing.pairs, (l.composition p).isSome) (hdistinct : pairing.pairs.Nodup) :
    (slots.filter (·.ours.isSome)).length =
      fillBound l pairing.pairs (slots.map (·.matchType)) := by
  have hadmitted : ∀ c ∈ slots.map (fun a => (a.matchType, a.ours)), ∀ p, c.2 = some p →
      p ∈ pairing.pairs ∧ c.1.admits (l.gender p.low) (l.gender p.high) = true := by
    intro c hc p hp
    obtain ⟨a, ha, rfl⟩ := List.mem_map.mp hc
    exact h.admitted a ha p hp
  have honce : ((slots.map fun a => (a.matchType, a.ours)).filterMap (·.2)).Nodup := by
    rw [List.filterMap_map]
    exact h.nodup_played
  have hmaximal : ∀ c ∈ slots.map (fun a => (a.matchType, a.ours)), c.2 = none →
      ∀ p ∈ pairing.pairs, c.1.admits (l.gender p.low) (l.gender p.high) = true →
        ∃ c' ∈ slots.map (fun a => (a.matchType, a.ours)), c'.2 = some p := by
    intro c hc hnone p hp hadmits
    obtain ⟨a, ha, rfl⟩ := List.mem_map.mp hc
    obtain ⟨b, hb, hbp⟩ := h.maximal a ha hnone p hp hadmits
    exact ⟨_, List.mem_map_of_mem hb, hbp⟩
  have hfill := DoublesLineup.filled_eq_fillBound hadmitted hknown hdistinct honce hmaximal
  rwa [List.map_map, List.filter_map, List.length_map] at hfill

end Greedy

/-! ### The whole schedule -/

theorem map_slotType_range (r : Nat) :
    (List.range slotCount).map (slotType r) = roundTemplate r := by
  unfold slotType roundTemplate
  split <;> rfl

theorem ScheduleSpec.map_matchType {l : StatsLookup} {pairing : Pairing}
    {rounds : List OpponentRound} {s : Schedule} (hs : ScheduleSpec l pairing rounds s) {r : Nat}
    {slots : List SlotAssignment} (hr : s.rounds[r]? = some slots) :
    slots.map (·.matchType) = roundTemplate r := by
  have hlen : slots.length = slotCount := hs.width slots (List.mem_of_getElem? hr)
  rw [← map_slotType_range r]
  refine List.ext_getElem (by simp [hlen]) fun k hk _ => ?_
  simp only [List.getElem_map, List.getElem_range]
  exact (hs.slot r k slots _ hr (List.getElem?_eq_getElem (by simpa using hk))).1

theorem StatsLookup.composition_isSome {l : StatsLookup} {p : Pair}
    (h : (l.gender p.low).isSome ∧ (l.gender p.high).isSome) : (l.composition p).isSome :=
  MatchType.ofGenders_isSome h.1 h.2

theorem Schedule.filled_eq_sum (s : Schedule) :
    s.filled = (s.rounds.map fun slots => (slots.filter (·.ours.isSome)).length).sum := by
  simp [Schedule.filled, Schedule.slots, List.filter_flatten, List.length_flatten, List.map_map,
    Function.comp_def]

/-- With the genders of every player of a pairing without repeated pairs known, the greedy
schedule against any opponent lineup fills as many slots of each round as any assignment could:
for each category, the fewer of its slots and of the pairs of that composition. It is worked
out whenever the blender's bounds are in order, each round's pairs form an assignment of its
slots, and no assignment of a round fills more slots; the schedule fills these maxima summed over
the rounds. -/
theorem buildSchedule_fills_most_slots (l : StatsLookup) {pairing : Pairing}
    (hdistinct : pairing.pairs.Nodup)
    (hknown : ∀ p ∈ pairing.pairs, (l.gender p.low).isSome ∧ (l.gender p.high).isSome)
    (rounds : List OpponentRound) :
    (l.blender.bounds.lower ≤ l.blender.bounds.upper →
      ∃ s, buildSchedule l pairing rounds = .ok s) ∧
    ∀ s, buildSchedule l pairing rounds = .ok s →
      (∀ r slots, s.rounds[r]? = some slots →
        RoundAssignment l pairing.pairs (roundTemplate r) (slots.map (·.ours)) ∧
        (slots.filter (·.ours.isSome)).length = fillBound l pairing.pairs (roundTemplate r) ∧
        ∀ choice, RoundAssignment l pairing.pairs (roundTemplate r) choice →
          (choice.filter (·.isSome)).length ≤ fillBound l pairing.pairs (roundTemplate r)) ∧
      s.filled = ((List.range roundCount).map fun r =>
        fillBound l pairing.pairs (roundTemplate r)).sum := by
  have hcomp : ∀ p ∈ pairing.pairs, (l.composition p).isSome :=
    fun p hp => StatsLookup.composition_isSome (hknown p hp)
  refine ⟨fun hl => scheduleOf_ok hl pairing (MatchView.ofRounds rounds), fun s hs => ?_⟩
  have hspec := buildSchedule_spec hdistinct hs
  have hround : ∀ r slots, s.rounds[r]? = some slots →
      RoundAssignment l pairing.pairs (roundTemplate r) (slots.map (·.ours)) ∧
      (slots.filter (·.ours.isSome)).length = fillBound l pairing.pairs (roundTemplate r) ∧
      ∀ choice, RoundAssignment l pairing.pairs (roundTemplate r) choice →
        (choice.filter (·.isSome)).length ≤ fillBound l pairing.pairs (roundTemplate r) := by
    intro r slots hr
    have hplay := hspec.play slots (List.mem_of_getElem? hr)
    have htypes := hspec.map_matchType hr
    refine ⟨htypes ▸ hplay.roundAssignment, htypes ▸ hplay.filled_eq_fillBound hcomp hdistinct,
      fun choice hchoice => hchoice.filled_le_fillBound hcomp⟩
  refine ⟨hround, ?_⟩
  rw [Schedule.filled_eq_sum]
  congr 1
  refine List.ext_getElem (by simp [hspec.length]) fun r hr _ => ?_
  simp only [List.getElem_map, List.getElem_range]
  exact (hround r _ (List.getElem?_eq_getElem (by simpa using hr))).2.1

/-- Four women and four men, paired as one women's pair, two mixed pairs and one men's pair, fill
16 of the 32 slots: two in each round. -/
theorem buildSchedule_fills_most_slots_of_four_women_four_men :
    let l := (StatsLookup.ofBundle {} .scoring).withGenders
      [("w1", .female), ("w2", .female), ("w3", .female), ("w4", .female),
        ("m1", .male), ("m2", .male), ("m3", .male), ("m4", .male)]
    let pairing : Pairing := ⟨[⟨"w1", "w2"⟩, ⟨"m1", "w3"⟩, ⟨"m2", "w4"⟩, ⟨"m3", "m4"⟩]⟩
    pairing.pairs.Nodup ∧
      (∀ p ∈ pairing.pairs, (l.gender p.low).isSome ∧ (l.gender p.high).isSome) ∧
      ∃ s, buildSchedule l pairing [] = .ok s ∧ s.filled = 16 := by
  intro l pairing
  have hdistinct : pairing.pairs.Nodup := by decide
  have hknown : ∀ p ∈ pairing.pairs, (l.gender p.low).isSome ∧ (l.gender p.high).isSome := by
    simp only [l, StatsLookup.gender_withGenders, StatsLookup.gender_ofBundle]
    decide
  have hl : l.blender.bounds.lower ≤ l.blender.bounds.upper := by decide
  have hfill := buildSchedule_fills_most_slots l hdistinct hknown []
  obtain ⟨s, hs⟩ := hfill.1 hl
  refine ⟨hdistinct, hknown, s, hs, ?_⟩
  rw [(hfill.2 s hs).2]
  simp only [fillBound, StatsLookup.composition, l, StatsLookup.gender_withGenders,
    StatsLookup.gender_ofBundle]
  decide

end DoublesLineup
