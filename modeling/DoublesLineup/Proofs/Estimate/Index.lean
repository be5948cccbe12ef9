import DoublesLineup.Proofs.Estimate.Lookup
import DoublesLineup.Proofs.Roster.Matching
/-! # The lookup's tables are a scan of the bundle

A lookup files each statistic of a bundle under the pair its two identifiers make and its
category, a later statistic replacing an earlier one under the same key, and each catalogued
gender under its player; the genders given afterwards replace those. This module shows that
what the tables answer is what a plain scan of the bundle finds: for a pair and a category, the
last statistic that names the pair's two players, in either order, in that category
(`FeatureBundle.lastCandidate`, `FeatureBundle.lastMatchup`), and for a player the last gender
given for it, else the last one the catalog gives (`FeatureBundle.catalogGender`).

An entry that names one player twice makes no pair, so it names no pair's players either.
Everything rests on one fact about a table filled by a fold (`get?_foldl_insert`): its answer
for a key is the value of the last entry filed under that key.
-/

namespace DoublesLineup

instance instLawfulBEqMatchType : LawfulBEq MatchType where
  rfl := by
    intro a
    cases a <;> rfl
  eq_of_beq := by
    intro a b
    cases a <;> cases b <;> decide

theorem get?_foldl_insert {α β γ : Type} [BEq α] [Hashable α] [LawfulBEq α]
    {f : Std.HashMap α β → γ → Std.HashMap α β} (entry : γ → Option (α × β))
    (hf : ∀ m s, f m s = (entry s).elim m fun kv => m.insert kv.1 kv.2) (k : α) :
    ∀ (xs : List γ) (m : Std.HashMap α β), (xs.foldl f m).get? k =
      (xs.filterMap fun s => (entry s).bind fun kv =>
        if kv.1 == k then some kv.2 else none).getLast?.or (m.get? k) := by
  intro xs
  induction xs using List.reverseRecOn with
  | nil => simp
  | append_singleton xs x ih =>
    intro m
    rw [List.foldl_append, List.foldl_cons, List.foldl_nil, hf, List.filterMap_append]
    cases hx : entry x with
    | none =>
      simp only [Option.elim_none, List.filterMap_cons, hx, Option.bind_none, List.filterMap_nil,
        List.append_nil]
      exact ih m
    | some kv =>
      simp only [Option.elim_some, Std.HashMap.get?_insert, List.filterMap_cons, hx,
        Option.bind_some, List.filterMap_nil]
      by_cases hk : kv.1 == k
      · simp only [hk, if_true, List.getLast?_append, List.getLast?_singleton, Option.some_or]
      · simp only [hk, Bool.false_eq_true, if_false, List.append_nil]
        exact ih m

theorem get?_foldl_insert_empty {α β γ : Type} [BEq α] [Hashable α] [LawfulBEq α]
    {f : Std.HashMap α β → γ → Std.HashMap α β} (entry : γ → Option (α × β))
    (hf : ∀ m s, f m s = (entry s).elim m fun kv => m.insert kv.1 kv.2) (k : α)
    (xs : List γ) : (xs.foldl f ∅).get? k =
      (xs.filterMap fun s => (entry s).bind fun kv =>
        if kv.1 == k then some kv.2 else none).getLast? := by
  rw [get?_foldl_insert entry hf k xs ∅, show (∅ : Std.HashMap α β).get? k = none from
    Std.HashMap.get?_emptyWithCapacity, Option.or_none]

theorem filterMap_keyed_eq_filter {α γ : Type} [BEq α] [LawfulBEq α] (key : γ → Option α)
    (k : α) (pred : γ → Bool) (h : ∀ s, key s = some k ↔ pred s = true) (xs : List γ) :
    (xs.filterMap fun s => ((key s).map fun k' => (k', s)).bind fun kv =>
      if kv.1 == k then some kv.2 else none) = xs.filter pred := by
  rw [← List.filterMap_eq_filter]
  refine List.filterMap_congr fun s _ => ?_
  have hs := h s
  cases hk : key s <;> cases hp : pred s <;> simp_all [Option.guard]

namespace Pair

/-- Whether two identifiers name the two players of `p`, in either order. -/
def names (p : Pair) (a b : PlayerId) : Bool :=
  (a == p.low && b == p.high) || (a == p.high && b == p.low)

theorem make?_eq_some_iff {p : Pair} (hp : p.Ordered) {a b : PlayerId} :
    make? a b = some p ↔ p.names a b = true := by
  obtain ⟨low, high⟩ := p
  unfold Ordered at hp
  simp only [make?, names, Bool.or_eq_true, Bool.and_eq_true, beq_iff_eq]
  constructor
  · intro h
    split at h
    · cases h
    · split at h <;> cases h
      · exact .inl ⟨rfl, rfl⟩
      · exact .inr ⟨rfl, rfl⟩
  · rintro (⟨rfl, rfl⟩ | ⟨rfl, rfl⟩)
    · simp [ne_of_lt hp, hp]
    · simp [ne_of_gt hp, not_lt_of_gt hp]

end Pair

namespace FeatureBundle

/-- The last statistic of our pairs that names the players of `p` in category `t`. -/
def lastCandidate (b : FeatureBundle) (p : Pair) (t : MatchType) : Option CandidateStat :=
  (b.candidatePairs.filter fun s => p.names s.playerA s.playerB && s.matchType == t).getLast?

/-- The last head-to-head statistic that names the players of `ours` as ours and those of
`theirs` as the opponents, in category `t`. -/
def lastMatchup (b : FeatureBundle) (ours theirs : Pair) (t : MatchType) : Option MatchupStat :=
  (b.pairMatchups.filter fun s =>
    ours.names s.ourA s.ourB && theirs.names s.oppA s.oppB && s.matchType == t).getLast?

/-- The gender of the last catalog entry for `x` that gives one. -/
def catalogGender (b : FeatureBundle) (x : PlayerId) : Option Gender :=
  (b.playersCatalog.filterMap fun c => if c.playerId = x then c.gender else none).getLast?

end FeatureBundle

/-- The last gender a list of genders gives for `x`. -/
def lastGiven (genders : List (PlayerId × Gender)) (x : PlayerId) : Option Gender :=
  (genders.filterMap fun e => if e.1 = x then some e.2 else none).getLast?

namespace StatsLookup

variable (b : FeatureBundle) (blender : Blender)

theorem candidates_get?_ofBundle {p : Pair} (hp : p.Ordered) (t : MatchType) :
    (ofBundle b blender).candidates.get? (p, t) = b.lastCandidate p t := by
  dsimp only [ofBundle]
  rw [get?_foldl_insert_empty
    (fun s => ((Pair.make? s.playerA s.playerB).map (·, s.matchType)).map fun k => (k, s))
    (fun m s => by cases Pair.make? s.playerA s.playerB <;> rfl),
    filterMap_keyed_eq_filter _ (p, t) (fun s => p.names s.playerA s.playerB && s.matchType == t)
      (fun s => by simp [Pair.make?_eq_some_iff hp]),
    FeatureBundle.lastCandidate]

theorem matchups_get?_ofBundle {ours theirs : Pair} (hours : ours.Ordered)
    (htheirs : theirs.Ordered) (t : MatchType) :
    (ofBundle b blender).matchups.get? (ours, theirs, t) = b.lastMatchup ours theirs t := by
  dsimp only [ofBundle]
  rw [get?_foldl_insert_empty
    (fun s => ((Pair.make? s.ourA s.ourB).bind fun o =>
      (Pair.make? s.oppA s.oppB).map (o, ·, s.matchType)).map fun k => (k, s))
    (fun m s => by cases Pair.make? s.ourA s.ourB <;> cases Pair.make? s.oppA s.oppB <;> rfl),
    filterMap_keyed_eq_filter _ (ours, theirs, t)
      (fun s => ours.names s.ourA s.ourB && theirs.names s.oppA s.oppB && s.matchType == t)
      (fun s => by
        simp only [Bool.and_eq_true, beq_iff_eq, ← Pair.make?_eq_some_iff hours,
          ← Pair.make?_eq_some_iff htheirs]
        cases Pair.make? s.ourA s.ourB <;> cases Pair.make? s.oppA s.oppB <;> simp [and_assoc]),
    FeatureBundle.lastMatchup]

theorem gender_ofBundle (x : PlayerId) : (ofBundle b blender).gender x = b.catalogGender x := by
  dsimp only [gender, ofBundle]
  rw [get?_foldl_insert_empty (fun c => c.gender.map (c.playerId, ·))
    (fun m c => by cases c.gender <;> rfl), FeatureBundle.catalogGender]
  congr 1
  refine List.filterMap_congr fun c _ => ?_
  cases c.gender <;> by_cases hx : c.playerId = x <;> simp [hx]

theorem gender_withGenders (l : StatsLookup) (genders : List (PlayerId × Gender))
    (x : PlayerId) : (l.withGenders genders).gender x = (lastGiven genders x).or (l.gender x) := by
  unfold gender withGenders
  rw [get?_foldl_insert some (fun m e => by rfl), lastGiven]
  congr 2
  refine List.filterMap_congr fun e _ => ?_
  by_cases hx : e.1 = x <;> simp [hx]

@[simp] theorem candidates_withGenders (l : StatsLookup) (genders : List (PlayerId × Gender)) :
    (l.withGenders genders).candidates = l.candidates := rfl

@[simp] theorem matchups_withGenders (l : StatsLookup) (genders : List (PlayerId × Gender)) :
    (l.withGenders genders).matchups = l.matchups := rfl

theorem candidate_some (l : StatsLookup) (p : Pair) (t : MatchType) :
    l.candidate p (some t) = (l.candidates.get? (p, t)).elim (pure .neutral) fun s =>
      l.estimate s.winRateShrunk s.pdWinProbability s.reliability s.signalCorrelation .candidate := by
  simp only [candidate, candidateStat, Option.some_or]
  cases l.candidates.get? (p, t) <;> rfl

theorem matchup_some (l : StatsLookup) (ours theirs : Pair) (t : MatchType) :
    l.matchup ours theirs (some t) =
      (l.matchups.get? (ours, theirs, t)).elim (l.candidate ours (some t)) fun s =>
        l.estimate s.winRateShrunk s.pdWinProbability s.reliability s.signalCorrelation .matchup := by
  simp only [matchup, matchupStat, meetingType, Option.some_or]
  cases l.matchups.get? (ours, theirs, t) <;> rfl

end StatsLookup

/-- A lookup of a bundle, with genders given afterwards, answers as a scan of the bundle: in a
stated category our pair's estimate is that of the last statistic naming its players, else even
odds; a meeting's is that of the last head-to-head statistic naming both pairs, else our pair's
own; and a player's gender is the last one given for it, else the catalog's last. -/
theorem lookup_answers_as_scan (b : FeatureBundle) (blender : Blender)
    (genders : List (PlayerId × Gender)) :
    let l := (StatsLookup.ofBundle b blender).withGenders genders
    (∀ p t, p.Ordered → l.candidate p (some t) =
      (b.lastCandidate p t).elim (pure .neutral) fun s =>
        l.estimate s.winRateShrunk s.pdWinProbability s.reliability s.signalCorrelation
          .candidate) ∧
    (∀ ours theirs t, ours.Ordered → theirs.Ordered → l.matchup ours theirs (some t) =
      (b.lastMatchup ours theirs t).elim (l.candidate ours (some t)) fun s =>
        l.estimate s.winRateShrunk s.pdWinProbability s.reliability s.signalCorrelation
          .matchup) ∧
    ∀ x, l.gender x = (lastGiven genders x).or (b.catalogGender x) := by
  dsimp only
  refine ⟨fun p t hp => ?_, fun ours theirs t hours htheirs => ?_, fun x => ?_⟩
  · -- adding genders leaves the statistics' tables as the bundle filled them
    rw [StatsLookup.candidate_some, StatsLookup.candidates_withGenders,
      StatsLookup.candidates_get?_ofBundle b blender hp t]
  · rw [StatsLookup.matchup_some, StatsLookup.matchups_withGenders,
      StatsLookup.matchups_get?_ofBundle b blender hours htheirs t]
  · rw [StatsLookup.gender_withGenders, StatsLookup.gender_ofBundle b blender x]

theorem lookup_answers_as_scan_of_reversed_entries :
    let b : FeatureBundle := { candidatePairs :=
      [⟨"b", "a", .mixed, 0.6, none, 0.5, none⟩, ⟨"a", "b", .mixed, 0.7, none, 0.5, none⟩] }
    let l := (StatsLookup.ofBundle b .scoring).withGenders [("a", .female)]
    Pair.Ordered ⟨"a", "b"⟩ ∧ Pair.Ordered ⟨"c", "d"⟩ ∧
    l.candidate ⟨"a", "b"⟩ (some .mixed) =
      (b.lastCandidate ⟨"a", "b"⟩ .mixed).elim (pure .neutral) (fun s =>
        l.estimate s.winRateShrunk s.pdWinProbability s.reliability s.signalCorrelation
          .candidate) ∧
    l.matchup ⟨"a", "b"⟩ ⟨"c", "d"⟩ (some .mixed) =
      (b.lastMatchup ⟨"a", "b"⟩ ⟨"c", "d"⟩ .mixed).elim (l.candidate ⟨"a", "b"⟩ (some .mixed))
        fun s =>
          l.estimate s.winRateShrunk s.pdWinProbability s.reliability s.signalCorrelation
            .matchup :=
  have hab : Pair.Ordered ⟨"a", "b"⟩ := by unfold Pair.Ordered; decide
  have hcd : Pair.Ordered ⟨"c", "d"⟩ := by unfold Pair.Ordered; decide
  ⟨hab, hcd, (lookup_answers_as_scan _ _ _).1 _ _ hab,
    (lookup_answers_as_scan _ _ _).2.1 _ _ _ hab hcd⟩

end DoublesLineup
