import DoublesLineup.Estimate.Lookup
import DoublesLineup.Proofs.Numeric.Order
import DoublesLineup.Proofs.Except
import DoublesLineup.Proofs.Roster.Partition
/-! # Lookups that never fault

A lookup faults only where an estimate is clamped into the blender's bounds, and a clamp
faults only on bounds out of order. With the bounds in order, as valid bounds are, every
blend, estimate, own estimate, head-to-head estimate and coverage is found.

A lookup also carries a table of own estimates worked out in advance. The table is faithful
when each entry is what `candidate p none` gives: `rememberOwn` adds only faithful entries, and
with a faithful table `ownEstimate` is `candidate p none`, so working estimates out in advance
changes no answer. Nothing but `ownEstimate` reads the table.
-/

namespace DoublesLineup

theorem Blender.blend_ok {b : Blender} (h : b.bounds.lower ≤ b.bounds.upper) (base : Float)
    (pd : Option Float) (reliability : Float) (correlation : Option Float) :
    ∃ v, b.blend base pd reliability correlation = .ok v := by
  unfold Blender.blend
  cases pd with
  | none =>
    dsimp only
    split <;> split
    · exact ⟨_, rfl⟩
    · exact ⟨_, ProbabilityBounds.clamp_eq h _⟩
    · exact ⟨_, rfl⟩
    · exact ⟨_, ProbabilityBounds.clamp_eq h _⟩
  | some pd =>
    dsimp only
    split <;> split
    · exact ⟨_, ProbabilityBounds.clamp_eq h _⟩
    · exact ⟨_, ProbabilityBounds.clamp_eq h _⟩
    · exact ⟨_, ProbabilityBounds.clamp_eq h _⟩
    · exact ⟨_, ProbabilityBounds.clamp_eq h _⟩

theorem forall_get?_insert {α β : Type} [BEq α] [Hashable α] [LawfulBEq α] {P : α → β → Prop}
    {m : Std.HashMap α β} (hm : ∀ k v, m.get? k = some v → P k v) {k : α} {v : β} (hk : P k v) :
    ∀ k' v', (m.insert k v).get? k' = some v' → P k' v' := by
  intro k' v' h
  rw [Std.HashMap.get?_insert] at h
  split at h
  · rename_i hkk
    cases beq_iff_eq.mp hkk
    cases h
    exact hk
  · exact hm k' v' h

namespace StatsLookup

section Total

variable {l : StatsLookup} (hl : l.blender.bounds.lower ≤ l.blender.bounds.upper)
include hl

theorem estimate_ok (winRate : Float) (pd : Option Float) (reliability : Float)
    (correlation : Option Float) (source : Source) :
    ∃ e, l.estimate winRate pd reliability correlation source = .ok e := by
  obtain ⟨v, hv⟩ := l.blender.blend_ok hl winRate pd reliability correlation
  unfold estimate
  rw [hv]
  simp [ProbabilityBounds.clamp_eq hl]

theorem candidate_ok (p : Pair) (t : Option MatchType) : ∃ e, l.candidate p t = .ok e := by
  unfold candidate
  split
  · exact ⟨_, rfl⟩
  · exact estimate_ok hl _ _ _ _ _

theorem matchup_ok (ours theirs : Pair) (t : Option MatchType) :
    ∃ e, l.matchup ours theirs t = .ok e := by
  unfold matchup
  split
  · exact candidate_ok hl _ _
  · exact estimate_ok hl _ _ _ _ _

theorem ownEstimate_ok (p : Pair) : ∃ e, l.ownEstimate p = .ok e := by
  unfold ownEstimate
  split
  · exact ⟨_, rfl⟩
  · exact candidate_ok hl _ _

theorem gameCoverage_ok (pairing : Pairing) : ∃ c, l.gameCoverage pairing = .ok c := by
  have hrel : ∀ p ∈ pairing.pairs, ∃ r, (WinEstimate.reliability <$> l.ownEstimate p) = .ok r :=
    fun p _ => by
      obtain ⟨e, he⟩ := ownEstimate_ok hl p
      exact ⟨e.reliability, by rw [he]; rfl⟩
  obtain ⟨rs, hrs⟩ := mapM_ok_of_forall hrel
  exact ⟨Sample.mean rs, by simp [gameCoverage, hrs]⟩

end Total

/-- Every own estimate in the table is the one `candidate p none` gives. -/
def OwnFaithful (l : StatsLookup) : Prop :=
  ∀ p e, l.own.get? p = some e → l.candidate p none = .ok e

theorem ownFaithful_of_own_eq_empty {l : StatsLookup} (h : l.own = {}) : l.OwnFaithful := by
  intro p e he
  simp [h] at he

theorem candidate_rememberOwn (l : StatsLookup) (pairs : List Pair) :
    (l.rememberOwn pairs).candidate = l.candidate := rfl

theorem matchup_rememberOwn (l : StatsLookup) (pairs : List Pair) :
    (l.rememberOwn pairs).matchup = l.matchup := rfl

theorem compatible_rememberOwn (l : StatsLookup) (pairs : List Pair) :
    (l.rememberOwn pairs).compatible = l.compatible := rfl

theorem gender_rememberOwn (l : StatsLookup) (pairs : List Pair) :
    (l.rememberOwn pairs).gender = l.gender := rfl

theorem blender_rememberOwn (l : StatsLookup) (pairs : List Pair) :
    (l.rememberOwn pairs).blender = l.blender := rfl

theorem rememberOwn_ownFaithful {l : StatsLookup} (h : l.OwnFaithful) (pairs : List Pair) :
    (l.rememberOwn pairs).OwnFaithful := by
  refine List.foldlRecOn (motive := fun m : Std.HashMap Pair WinEstimate =>
    ∀ p e, m.get? p = some e → l.candidate p none = .ok e) pairs _ h ?_
  intro m hm q _
  split
  · exact forall_get?_insert hm ‹_›
  · exact hm

theorem ownEstimate_eq {l : StatsLookup} (h : l.OwnFaithful) (p : Pair) :
    l.ownEstimate p = l.candidate p none := by
  unfold ownEstimate
  split
  · rename_i e he
    exact (h p e he).symm
  · rfl

theorem gameCoverage_rememberOwn {l : StatsLookup} (h : l.OwnFaithful) (pairs : List Pair)
    (pairing : Pairing) : (l.rememberOwn pairs).gameCoverage pairing = l.gameCoverage pairing := by
  unfold gameCoverage
  simp only [ownEstimate_eq h, ownEstimate_eq (rememberOwn_ownFaithful h pairs),
    candidate_rememberOwn]

end StatsLookup

end DoublesLineup
