import DoublesLineup.Proofs.Estimate.Index
import DoublesLineup.Proofs.Estimate.Bounded
import DoublesLineup.Proofs.Estimate.Lookup
/-! # The most reliable category on record

A pair whose category is neither asked for nor implied by its players' genders is looked up in
the most reliable category on record: the statistics filed for it as mixed, women's and men's,
in that order, are folded keeping the best unless a later one is more reliable
(`StatsLookup.mostReliable`). Over reliabilities that are numbers the order of doubles is total,
and the fold finds the first of the greatest (`IsFirstMost`).

An estimate reports a statistic's reliability kept in `[0, 1]`, as zero when it is not finite
(`unitReliability`). Below `+∞` that reading is monotone, so the reliability the chosen
statistic reports is the greatest any category on record would report. At `+∞` it is not: a
statistic of infinite reliability is chosen over one of reliability one half, and reports zero
(`candidate_prefers_infinite_reliability`). A meeting of two pairs of unknown composition takes
its head-to-head statistic the same way.
-/

namespace DoublesLineup

open FloatOrder

/-! ### The first of the greatest -/

section FirstMost

variable {α : Type} {key : α → Float}

/-- `x` is the first entry of `xs` with the greatest key: every entry before it has a smaller
key, and none after it a larger one. -/
def IsFirstMost (key : α → Float) (xs : List α) (x : α) : Prop :=
  ∃ pre post, xs = pre ++ x :: post ∧ (∀ y ∈ pre, key y < key x) ∧ ∀ y ∈ post, key y ≤ key x

theorem IsFirstMost.singleton (x : α) : IsFirstMost key [x] x :=
  ⟨[], [], rfl, by simp, by simp⟩

theorem IsFirstMost.mem {xs : List α} {x : α} (h : IsFirstMost key xs x) : x ∈ xs := by
  obtain ⟨pre, post, rfl, -, -⟩ := h
  simp

theorem IsFirstMost.le {xs : List α} {x y : α} (h : IsFirstMost key xs x)
    (hx : (key x).isNaN = false) (hy : y ∈ xs) : key y ≤ key x := by
  obtain ⟨pre, post, rfl, hpre, hpost⟩ := h
  rcases List.mem_append.mp hy with hy | hy
  · exact le_of_lt (hpre y hy)
  · rcases List.mem_cons.mp hy with rfl | hy
    · exact le_refl_of_isNaN hx
    · exact hpost y hy

theorem IsFirstMost.append_of_le {xs : List α} {x y : α} (h : IsFirstMost key xs x)
    (hle : key y ≤ key x) : IsFirstMost key (xs ++ [y]) x := by
  obtain ⟨pre, post, rfl, hpre, hpost⟩ := h
  refine ⟨pre, post ++ [y], by simp, hpre, fun z hz => ?_⟩
  rcases List.mem_append.mp hz with hz | hz
  · exact hpost z hz
  · rw [List.mem_singleton.mp hz]
    exact hle

theorem IsFirstMost.append_of_lt {xs : List α} {x y : α} (h : IsFirstMost key xs x)
    (hlt : key x < key y) : IsFirstMost key (xs ++ [y]) y := by
  obtain ⟨pre, post, rfl, hpre, hpost⟩ := h
  refine ⟨pre ++ x :: post, [], by simp, fun z hz => ?_, by simp⟩
  rcases List.mem_append.mp hz with hz | hz
  · exact lt_trans (hpre z hz) hlt
  · rcases List.mem_cons.mp hz with rfl | hz
    · exact hlt
    · exact lt_of_le_of_lt (hpost z hz) hlt

end FirstMost

/-! ### The fold over the categories -/

namespace StatsLookup

section MostReliable

variable {α : Type} {reliability : α → Float}

theorem mostReliable_append_singleton (xs : List α) (s : α) :
    mostReliable reliability (xs ++ [s]) =
      some ((mostReliable reliability xs).elim s fun b =>
        if reliability b ≥ reliability s then b else s) := by
  simp only [mostReliable, List.foldl_append, List.foldl_cons, List.foldl_nil]
  split <;> simp_all [apply_ite]

/-- Over reliabilities that are numbers, the fold finds the first of the most reliable, and
finds nothing only in an empty list. -/
theorem mostReliable_spec (xs : List α) (hnum : ∀ s ∈ xs, (reliability s).isNaN = false) :
    xs = [] ∧ mostReliable reliability xs = none ∨
      ∃ x, mostReliable reliability xs = some x ∧ IsFirstMost reliability xs x := by
  induction xs using List.reverseRecOn with
  | nil => exact .inl ⟨rfl, rfl⟩
  | append_singleton xs s ih =>
    have hs := hnum s (by simp)
    rw [mostReliable_append_singleton]
    rcases ih fun y hy => hnum y (by simp [hy]) with ⟨rfl, hnone⟩ | ⟨b, hb, hfirst⟩
    · exact .inr ⟨s, by rw [hnone]; rfl, IsFirstMost.singleton s⟩
    · rw [hb]
      by_cases hge : reliability b ≥ reliability s
      · exact .inr ⟨b, by simp [hge], hfirst.append_of_le hge⟩
      · -- the later statistic is the more reliable, so it is the first of the greatest
        have hlt := lt_of_not_le hs (hnum b (by simp [hfirst.mem])) hge
        exact .inr ⟨s, by simp [hge], hfirst.append_of_lt hlt⟩

end MostReliable

end StatsLookup

/-! ### The reliability an estimate reports -/

/-- A reliability kept in `[0, 1]`, and zero when it is not finite. -/
def unitReliability (r : Float) : Float := if r.isFinite then clampTo r 0.0 1.0 else 0.0

theorem clampTo_mono {x y lo hi : Float} (hxy : x ≤ y) (h : lo ≤ hi) :
    clampTo x lo hi ≤ clampTo y lo hi := by
  obtain ⟨hx, hy⟩ := isNaN_eq_false_of_le hxy
  by_cases hxlo : x < lo
  · -- the smaller value goes up to the lower bound, which nothing clamped is below
    have hclamp : clampTo x lo hi = lo := if_pos hxlo
    rw [hclamp]
    exact (clampTo_mem hy h).1
  have hylo : ¬y < lo := fun hylo => hxlo (lt_of_le_of_lt hxy hylo)
  by_cases hyhi : y > hi
  · -- the larger value goes down to the upper bound, which nothing clamped is above
    have hclamp : clampTo y lo hi = hi := by rw [clampTo, if_neg hylo, if_pos hyhi]
    rw [hclamp]
    exact (clampTo_mem hx h).2
  have hxhi : ¬x > hi := fun hxhi => hyhi (lt_of_lt_of_le hxhi hxy)
  rw [clampTo, clampTo, if_neg hxlo, if_neg hxhi, if_neg hylo, if_neg hyhi]
  exact hxy

theorem isFinite_of_le_of_lt_infinity {x y : Float} (hx : x.isFinite = true) (hxy : x ≤ y)
    (hy : y < infinity) : y.isFinite = true := by
  rw [le_iff] at hxy
  rw [lt_iff] at hy
  have hinf : infinity.toModel.unpack = .infinity .positive := rfl
  rw [hinf] at hy
  change x.toModel.unpack.isFinite = true at hx
  change y.toModel.unpack.isFinite = true
  generalize x.toModel.unpack = u at *
  generalize y.toModel.unpack = v at *
  rcases v with ⟨_ | _⟩ | _ | _ | _ <;> rcases u with ⟨_ | _⟩ | _ | _ | ⟨_ | _⟩ <;>
    simp_all [Float.Model.UnpackedFloat.le, Float.Model.UnpackedFloat.lt,
      Float.Model.UnpackedFloat.compare, Float.Model.UnpackedFloat.isFinite]

theorem unitReliability_mono {x y : Float} (hxy : x ≤ y) (hy : y < infinity) :
    unitReliability x ≤ unitReliability y := by
  have hunit : (0.0 : Float) ≤ 1.0 := by decide
  unfold unitReliability
  by_cases hyf : y.isFinite = true
  · rw [if_pos hyf]
    by_cases hxf : x.isFinite = true
    · rw [if_pos hxf]
      exact clampTo_mono hxy hunit
    · rw [if_neg hxf]
      exact (clampTo_mem (isNaN_eq_false_of_isFinite hyf) hunit).1
  · -- `y` is `-∞`, and so is `x`
    have hxf : ¬x.isFinite = true := fun hxf => hyf (isFinite_of_le_of_lt_infinity hxf hxy hy)
    rw [if_neg hyf, if_neg hxf]
    decide

/-- A lookup picks the most reliable of the statistics `found` in category order, and answers
accordingly: it picks the first of the most reliable, its answer is that statistic's estimate,
and the reliability the estimate reports is the greatest any statistic found would report. -/
def PicksMostReliable {α : Type} (reliability : α → Float) (found : List α) (picked : Option α)
    (answer : Except Fault WinEstimate) : Prop :=
  ∃ s e, picked = some s ∧ IsFirstMost reliability found s ∧ answer = .ok e ∧
    e.reliability = unitReliability (reliability s) ∧
    ∀ s' ∈ found, unitReliability (reliability s') ≤ e.reliability

namespace StatsLookup

variable {l : StatsLookup}

theorem estimate_reliability {winRate : Float} {pd : Option Float} {reliability : Float}
    {correlation : Option Float} {source : Source} {e : WinEstimate}
    (h : l.estimate winRate pd reliability correlation source = .ok e) :
    e.reliability = unitReliability reliability := by
  unfold estimate at h
  obtain ⟨blended, -, h⟩ := bind_eq_ok.mp h
  obtain ⟨probability, -, h⟩ := bind_eq_ok.mp h
  cases h
  rfl

theorem mostReliable_reports_most {α : Type} {reliability : α → Float} {xs : List α}
    (hrel : ∀ s ∈ xs, reliability s < infinity) (hne : xs ≠ []) :
    ∃ x, mostReliable reliability xs = some x ∧ IsFirstMost reliability xs x ∧
      ∀ y ∈ xs, unitReliability (reliability y) ≤ unitReliability (reliability x) := by
  have hnum : ∀ s ∈ xs, (reliability s).isNaN = false :=
    fun s hs => (isNaN_eq_false_of_lt (hrel s hs)).1
  rcases mostReliable_spec xs hnum with ⟨rfl, -⟩ | ⟨x, hx, hfirst⟩
  · exact absurd rfl hne
  · refine ⟨x, hx, hfirst, fun y hy => ?_⟩
    exact unitReliability_mono (hfirst.le (hnum x hfirst.mem) hy) (hrel x hfirst.mem)

section Unknown

variable (hl : l.blender.bounds.lower ≤ l.blender.bounds.upper)
include hl

theorem candidate_of_unknown_composition {p : Pair} (hp : l.composition p = none)
    (hne : MatchType.all.filterMap (fun t => l.candidates.get? (p, t)) ≠ [])
    (hrel : ∀ s ∈ MatchType.all.filterMap (fun t => l.candidates.get? (p, t)),
      s.reliability < infinity) :
    PicksMostReliable (·.reliability) (MatchType.all.filterMap fun t => l.candidates.get? (p, t))
      (l.candidateStat p none) (l.candidate p none) := by
  obtain ⟨s, hs, hfirst, hmost⟩ := mostReliable_reports_most hrel hne
  have hstat : l.candidateStat p none = some s := by
    rw [candidateStat, Option.none_or, hp]
    exact hs
  obtain ⟨e, he⟩ := estimate_ok hl s.winRateShrunk s.pdWinProbability s.reliability
    s.signalCorrelation .candidate
  have hcand : l.candidate p none = .ok e := by
    rw [candidate, hstat]
    exact he
  refine ⟨s, e, hstat, hfirst, hcand, estimate_reliability he, fun s' hs' => ?_⟩
  rw [estimate_reliability he]
  exact hmost s' hs'

theorem matchup_of_unknown_compositions {ours theirs : Pair} (hours : l.composition ours = none)
    (htheirs : l.composition theirs = none)
    (hne : MatchType.all.filterMap (fun t => l.matchups.get? (ours, theirs, t)) ≠ [])
    (hrel : ∀ s ∈ MatchType.all.filterMap (fun t => l.matchups.get? (ours, theirs, t)),
      s.reliability < infinity) :
    PicksMostReliable (·.reliability)
      (MatchType.all.filterMap fun t => l.matchups.get? (ours, theirs, t))
      (l.matchupStat ours theirs none) (l.matchup ours theirs none) := by
  obtain ⟨s, hs, hfirst, hmost⟩ := mostReliable_reports_most hrel hne
  have hmeeting : l.meetingType ours theirs none = none := by
    rw [meetingType, Option.none_or, hours, Option.none_or, htheirs]
  have hstat : l.matchupStat ours theirs none = some s := by
    rw [matchupStat, hmeeting]
    exact hs
  obtain ⟨e, he⟩ := estimate_ok hl s.winRateShrunk s.pdWinProbability s.reliability
    s.signalCorrelation .matchup
  have hmatch : l.matchup ours theirs none = .ok e := by
    rw [matchup, hstat]
    exact he
  refine ⟨s, e, hstat, hfirst, hmatch, estimate_reliability he, fun s' hs' => ?_⟩
  rw [estimate_reliability he]
  exact hmost s' hs'

/-- Without a category to go by, a lookup whose bounds are in order takes the most reliable
statistic on record, the first of mixed, women's and men's among equals, whenever the
reliabilities on record are numbers below `+∞`; its estimate then reports the greatest
reliability any category on record would. So it is for our pair's own statistic when its
composition is unknown, and for a head-to-head statistic when both compositions are. -/
theorem unknown_category_most_reliable :
    (∀ p, l.composition p = none →
      MatchType.all.filterMap (fun t => l.candidates.get? (p, t)) ≠ [] →
      (∀ s ∈ MatchType.all.filterMap (fun t => l.candidates.get? (p, t)),
        s.reliability < infinity) →
      PicksMostReliable (·.reliability)
        (MatchType.all.filterMap fun t => l.candidates.get? (p, t))
        (l.candidateStat p none) (l.candidate p none)) ∧
    ∀ ours theirs, l.composition ours = none → l.composition theirs = none →
      MatchType.all.filterMap (fun t => l.matchups.get? (ours, theirs, t)) ≠ [] →
      (∀ s ∈ MatchType.all.filterMap (fun t => l.matchups.get? (ours, theirs, t)),
        s.reliability < infinity) →
      PicksMostReliable (·.reliability)
        (MatchType.all.filterMap fun t => l.matchups.get? (ours, theirs, t))
        (l.matchupStat ours theirs none) (l.matchup ours theirs none) :=
  ⟨fun _ hp hne hrel => candidate_of_unknown_composition hl hp hne hrel,
    fun _ _ hours htheirs hne hrel => matchup_of_unknown_compositions hl hours htheirs hne hrel⟩

end Unknown

end StatsLookup

/-- A pair filed as mixed with reliability `0.3` and as women's with `0.8`, and no genders on
record: the women's statistic is taken. -/
theorem unknown_category_most_reliable_of_two_categories :
    let b : FeatureBundle := { candidatePairs :=
      [⟨"a", "b", .mixed, 0.6, none, 0.3, none⟩, ⟨"a", "b", .female, 0.4, none, 0.8, none⟩] }
    let l := StatsLookup.ofBundle b .scoring
    let found := MatchType.all.filterMap fun t => l.candidates.get? (⟨"a", "b"⟩, t)
    l.blender.bounds.lower ≤ l.blender.bounds.upper ∧ l.composition ⟨"a", "b"⟩ = none ∧
      found ≠ [] ∧ (∀ s ∈ found, s.reliability < infinity) ∧
      PicksMostReliable (·.reliability) found (l.candidateStat ⟨"a", "b"⟩ none)
        (l.candidate ⟨"a", "b"⟩ none) := by
  intro b l found
  have hl : l.blender.bounds.lower ≤ l.blender.bounds.upper := by decide
  have hab : Pair.Ordered ⟨"a", "b"⟩ := by unfold Pair.Ordered; decide
  have hcomp : l.composition ⟨"a", "b"⟩ = none := by
    simp only [l, StatsLookup.composition, StatsLookup.gender_ofBundle]
    rfl
  have hfound : found = [⟨"a", "b", .mixed, 0.6, none, 0.3, none⟩,
      ⟨"a", "b", .female, 0.4, none, 0.8, none⟩] := by
    simp only [found, l, StatsLookup.candidates_get?_ofBundle b _ hab]
    rfl
  have hne : found ≠ [] := by
    rw [hfound]
    exact List.cons_ne_nil _ _
  have hrel : ∀ s ∈ found, s.reliability < infinity := by
    rw [hfound]
    intro s hs
    simp only [List.mem_cons, List.not_mem_nil, or_false] at hs
    rcases hs with rfl | rfl <;> decide
  exact ⟨hl, hcomp, hne, hrel, (StatsLookup.unknown_category_most_reliable hl).1 _ hcomp hne hrel⟩

/-- A statistic of infinite reliability is the most reliable on record, and is taken over a
women's statistic of reliability one half; but an estimate reads an infinite reliability as
zero, so the pair's estimate without a category reports less than its women's estimate. -/
theorem candidate_prefers_infinite_reliability :
    let b : FeatureBundle := { candidatePairs :=
      [⟨"a", "b", .mixed, 0.6, none, infinity, none⟩, ⟨"a", "b", .female, 0.3, none, 0.5, none⟩] }
    let l := StatsLookup.ofBundle b .scoring
    l.candidate ⟨"a", "b"⟩ none = .ok ⟨0.6, 0.0, .candidate⟩ ∧
      l.candidate ⟨"a", "b"⟩ (some .female) = .ok ⟨0.3, 0.5, .candidate⟩ := by
  intro b l
  have hab : Pair.Ordered ⟨"a", "b"⟩ := by unfold Pair.Ordered; decide
  have hcomp : l.composition ⟨"a", "b"⟩ = none := by
    simp only [l, StatsLookup.composition, StatsLookup.gender_ofBundle]
    rfl
  constructor
  · simp only [StatsLookup.candidate, StatsLookup.candidateStat, Option.none_or, hcomp, l,
      StatsLookup.candidates_get?_ofBundle b _ hab, b]
    rfl
  · simp only [StatsLookup.candidate_some, l, StatsLookup.candidates_get?_ofBundle b _ hab, b]
    rfl

end DoublesLineup
