import DoublesLineup.Request.Validate
import DoublesLineup.Proofs.Estimate.Index
/-! # Which requests are accepted

A request is accepted exactly when it is well formed (`Request.WellFormed`): it names 8 to 20
players, an even number of them and each once; asks for 1 to 10 recommendations; gives a
downside quantile strictly between 0 and 1, which a quantile that is not a number is not; limits
scenarios to 1 to 30; and, against a known opponent, gives the opponent's rounds and roster,
eight rounds of four slots, each slot of the template's type naming two different players of
the roster whose genders make that type (`OpponentSlot.WellFormed`). A request that is refused
is refused with at least one message (`validateRequest_accepts_exactly`).

The check gathers one list of messages per rule and accepts when all are empty, so the proof
is one equivalence per rule: the scan for repeated players stays silent exactly on a list
without repetitions, each slot's messages are empty exactly on a well-formed slot, and the
opponent's messages exactly on a well-formed lineup. Reading the rounds and slots by position
shows that the checker's `take` of the first eight rounds and four slots loses nothing once the
counts are right.

An accepted known-opponent lineup has an opponent pair in every slot, and a lookup told the
roster's genders sees that pair's composition as the slot's type
(`OpponentLineupWellFormed.composition_opponentAt`).
-/

namespace DoublesLineup

theorem find?_map_snd_eq_lookup {α β : Type} [BEq α] [LawfulBEq α] (entries : List (α × β))
    (k : α) : (entries.find? (·.1 == k)).map (·.2) = entries.lookup k := by
  induction entries with
  | nil => rfl
  | cons e rest ih =>
    obtain ⟨k', v⟩ := e
    by_cases h : k' = k
    · subst h
      simp [List.lookup]
    · have h' : (k == k') = false := beq_false_of_ne (Ne.symm h)
      simp [List.lookup, h, h', ih]

/-- A slot of the opponent's lineup as the template wants it: of the template's type for its
round and slot, naming two different players of the roster whose genders make that type. -/
@[mk_iff]
structure OpponentSlot.WellFormed (roster : List (PlayerId × Gender)) (round slot : Nat)
    (s : OpponentSlot) : Prop where
  template : s.matchType = slotType round slot
  distinct : s.playerA ≠ s.playerB
  rostered : ∃ ga gb, roster.lookup s.playerA = some ga ∧ roster.lookup s.playerB = some gb ∧
    MatchType.ofGenders (some ga) (some gb) = some s.matchType

/-- The opponent's lineup as a known-opponent request must give it: eight rounds of four
slots, each as the template wants it. -/
def OpponentLineupWellFormed (rounds : List OpponentRound) (roster : List (PlayerId × Gender)) :
    Prop :=
  rounds.length = 8 ∧ ∀ i (slots : OpponentRound), rounds[i]? = some slots →
    slots.length = 4 ∧ ∀ j (s : OpponentSlot), slots[j]? = some s → s.WellFormed roster i j

/-- A request that may be answered. -/
@[mk_iff]
structure Request.WellFormed (r : Request) : Prop where
  players_count : 8 ≤ r.availablePlayerIds.length ∧ r.availablePlayerIds.length ≤ 20
  players_even : r.availablePlayerIds.length % 2 = 0
  players_distinct : r.availablePlayerIds.Nodup
  recommendations : 1 ≤ r.maxRecommendations ∧ r.maxRecommendations ≤ 10
  quantile : 0.0 < r.downsideQuantile ∧ r.downsideQuantile < 1.0
  scenarios : 1 ≤ r.scenarioLimit ∧ r.scenarioLimit ≤ 30
  opponent : r.mode = .knownOpponent → ∃ rounds roster, r.opponentRounds = some rounds ∧
    r.opponentRoster = some roster ∧ OpponentLineupWellFormed rounds roster

/-! ### Repeated players -/

theorem foldl_duplicateStep (players : List PlayerId) :
    (∀ p, p ∈ (players.foldl duplicateStep ([], [])).1 ↔ p ∈ players) ∧
      ((players.foldl duplicateStep ([], [])).2 = [] ↔ players.Nodup) := by
  induction players using List.reverseRecOn with
  | nil => simp
  | append_singleton xs x ih =>
    obtain ⟨hseen, hmsgs⟩ := ih
    rw [List.foldl_append, List.foldl_cons, List.foldl_nil, duplicateStep]
    by_cases hx : x ∈ xs
    · -- a repeat: the message is added and the list has a repetition
      have hcontains : (xs.foldl duplicateStep ([], [])).1.contains x = true :=
        List.contains_iff_mem.mpr ((hseen x).mpr hx)
      simp only [hcontains, if_true, List.append_eq_nil_iff, List.cons_ne_nil, and_false,
        false_iff, List.nodup_append, List.mem_singleton]
      refine ⟨fun p => ?_, fun h => h.2.2 x hx x rfl rfl⟩
      rw [hseen p, List.mem_append, List.mem_singleton]
      exact ⟨.inl, fun h => h.elim id fun hp => hp ▸ hx⟩
    · have hcontains : (xs.foldl duplicateStep ([], [])).1.contains x = false := by
        rw [Bool.eq_false_iff, ne_eq, List.contains_iff_mem, hseen x]
        exact hx
      simp only [hcontains, Bool.false_eq_true, if_false, List.mem_cons, hseen,
        List.mem_append, List.nodup_append, List.nodup_cons, List.not_mem_nil, or_false,
        not_false_eq_true, List.nodup_nil, and_self, true_and]
      refine ⟨fun p => or_comm, ?_⟩
      rw [hmsgs]
      constructor
      · intro h
        exact ⟨h, fun a ha b hb => hb ▸ fun hab => hx (hab ▸ ha)⟩
      · exact fun h => h.1

theorem duplicateMessages_eq_nil_iff (players : List PlayerId) :
    duplicateMessages players = [] ↔ players.Nodup :=
  (foldl_duplicateStep players).2

/-! ### The opponent's lineup -/

theorem slotMessages_eq_nil_iff (roster : List (PlayerId × Gender)) (round slot : Nat)
    (s : OpponentSlot) : slotMessages roster round slot s = [] ↔ s.WellFormed roster round slot := by
  unfold slotMessages
  simp only [find?_map_snd_eq_lookup, List.append_eq_nil_iff, List.filterMap_cons,
    List.filterMap_nil]
  rw [OpponentSlot.wellFormed_iff]
  cases ha : roster.lookup s.playerA <;> cases hb : roster.lookup s.playerB <;> simp [and_assoc]

theorem flatMap_zipIdx_eq_nil_iff {α β : Type} (xs : List α) (f : α × Nat → List β) :
    xs.zipIdx.flatMap f = [] ↔ ∀ i x, xs[i]? = some x → f (x, i) = [] := by
  rw [List.flatMap_eq_nil_iff]
  constructor
  · intro h i x hx
    exact h (x, i) (List.mem_zipIdx_iff_getElem?.mpr hx)
  · rintro h ⟨x, i⟩ hmem
    exact h i x (List.mem_zipIdx_iff_getElem?.mp hmem)

theorem opponentMessages_eq_nil_iff (r : Request) :
    opponentMessages r = [] ↔ ∃ rounds roster, r.opponentRounds = some rounds ∧
      r.opponentRoster = some roster ∧ OpponentLineupWellFormed rounds roster := by
  unfold opponentMessages
  cases r.opponentRounds with
  | none => simp
  | some rounds =>
    cases r.opponentRoster with
    | none => simp
    | some roster =>
      simp only [List.append_eq_nil_iff, Option.some.injEq, exists_and_left, exists_eq_left',
        OpponentLineupWellFormed]
      by_cases hlen : rounds.length = 8
      · -- with eight rounds the checker reads every round, and with four slots every slot
        rw [List.take_of_length_le (by simp [roundCount, hlen]), flatMap_zipIdx_eq_nil_iff]
        simp only [roundCount, hlen, bne_self_eq_false, Bool.false_eq_true, if_false, true_and]
        refine forall_congr' fun i => forall_congr' fun slots => imp_congr_right fun _ => ?_
        simp only [List.append_eq_nil_iff, ite_eq_right_iff, List.cons_ne_nil, imp_false,
          bne_iff_ne, ne_eq, Decidable.not_not, slotCount]
        by_cases hslots : slots.length = 4
        · rw [List.take_of_length_le (by omega), flatMap_zipIdx_eq_nil_iff]
          simp only [hslots, true_and, slotMessages_eq_nil_iff]
        · simp [hslots]
      · simp [roundCount, hlen]

/-! ### The whole request -/

instance instLawfulBEqMode : LawfulBEq Mode where
  rfl := by
    intro a
    cases a <;> rfl
  eq_of_beq := by
    intro a b
    cases a <;> cases b <;> decide

theorem requestViolations_eq_nil_iff (r : Request) :
    requestViolations r = [] ↔ r.WellFormed := by
  unfold requestViolations
  simp only [List.append_eq_nil_iff, duplicateMessages_eq_nil_iff, Request.wellFormed_iff,
    minPlayers, maxPlayers, maxRecommendationCount, maxScenarioLimit]
  by_cases hknown : r.mode = .knownOpponent
  · simp [hknown, opponentMessages_eq_nil_iff, Nat.one_le_iff_ne_zero, and_assoc]
  · simp [hknown, Nat.one_le_iff_ne_zero, and_assoc]

theorem validateRequest_eq_ok_iff (r : Request) :
    validateRequest r = .ok () ↔ requestViolations r = [] := by
  unfold validateRequest
  cases requestViolations r with
  | nil => exact ⟨fun _ => rfl, fun _ => rfl⟩
  | cons v vs => simp

theorem validateRequest_error_ne_nil {r : Request} {violations : List String}
    (h : validateRequest r = .error violations) : violations ≠ [] := by
  unfold validateRequest at h
  cases hv : requestViolations r with
  | nil =>
    rw [hv] at h
    cases h
  | cons v vs =>
    rw [hv] at h
    cases h
    exact List.cons_ne_nil v vs

/-! ### Accepted lineups -/

theorem Pair.make?_of_ne {a b : PlayerId} (h : a ≠ b) : Pair.make? a b = some (Pair.of a b) := by
  unfold Pair.make? Pair.of
  rw [if_neg h]
  split <;> rfl

theorem MatchType.ofGenders_comm (g₁ g₂ : Option Gender) :
    MatchType.ofGenders g₁ g₂ = MatchType.ofGenders g₂ g₁ := by
  rcases g₁ with _ | _ | _ <;> rcases g₂ with _ | _ | _ <;> rfl

theorem lastGiven_eq_lookup {roster : List (PlayerId × Gender)}
    (hkeys : (roster.map Prod.fst).Nodup) (x : PlayerId) : lastGiven roster x = roster.lookup x := by
  induction roster with
  | nil => rfl
  | cons e rest ih =>
    obtain ⟨k, g⟩ := e
    rw [List.map_cons, List.nodup_cons] at hkeys
    unfold lastGiven at ih ⊢
    rw [List.filterMap_cons]
    by_cases hk : k = x
    · -- the player is named here and nowhere later
      subst hk
      have hrest : (rest.filterMap fun e => if e.1 = k then some e.2 else none) = [] := by
        rw [List.filterMap_eq_nil_iff]
        intro e he
        have hne : e.1 ≠ k := fun h => hkeys.1 (List.mem_map.mpr ⟨e, he, h⟩)
        simp [hne]
      simp [hrest, List.lookup]
    · have hk' : (x == k) = false := beq_false_of_ne (Ne.symm hk)
      simp only [hk, if_false]
      rw [ih hkeys.2]
      simp [List.lookup, hk']

theorem gender_withGenders_of_lookup {roster : List (PlayerId × Gender)}
    (hkeys : (roster.map Prod.fst).Nodup) (l : StatsLookup) {x : PlayerId} {g : Gender}
    (h : roster.lookup x = some g) : (l.withGenders roster).gender x = some g := by
  rw [StatsLookup.gender_withGenders, lastGiven_eq_lookup hkeys, h, Option.some_or]

theorem OpponentLineupWellFormed.composition_opponentAt {rounds : List OpponentRound}
    {roster : List (PlayerId × Gender)} (h : OpponentLineupWellFormed rounds roster)
    (hkeys : (roster.map Prod.fst).Nodup) (l : StatsLookup) {i j : Nat} (hi : i < 8)
    (hj : j < 4) :
    ∃ p, opponentAt rounds i j = some p ∧
      (l.withGenders roster).composition p = some (slotType i j) := by
  obtain ⟨hlen, hrounds⟩ := h
  have hround : rounds[i]? = some rounds[i] := List.getElem?_eq_getElem (by omega)
  obtain ⟨hslots, hslot⟩ := hrounds i rounds[i] hround
  have hs : rounds[i][j]? = some rounds[i][j] := List.getElem?_eq_getElem (by omega)
  obtain ⟨htemplate, hdistinct, ga, gb, ha, hb, hcomp⟩ := hslot j _ hs
  refine ⟨Pair.of rounds[i][j].playerA rounds[i][j].playerB, ?_, ?_⟩
  · simp [opponentAt, hround, hs, Pair.make?_of_ne hdistinct]
  · -- the roster's genders override whatever the lookup knew
    have hga := gender_withGenders_of_lookup hkeys l ha
    have hgb := gender_withGenders_of_lookup hkeys l hb
    rw [← htemplate, ← hcomp]
    unfold StatsLookup.composition Pair.of
    split
    · rw [hga, hgb]
    · rw [hga, hgb, MatchType.ofGenders_comm]

/-- A request is accepted exactly when it is well formed, and refused with at least one
message otherwise; an accepted known-opponent request has an opponent pair in every slot,
whose composition, for a lookup told the roster's genders, is the slot's type. -/
theorem validateRequest_accepts_exactly (r : Request) :
    (validateRequest r = .ok () ↔ r.WellFormed) ∧
    (∀ violations, validateRequest r = .error violations → violations ≠ []) ∧
    (validateRequest r = .ok () → r.mode = .knownOpponent → ∀ rounds roster,
      r.opponentRounds = some rounds → r.opponentRoster = some roster →
      (roster.map Prod.fst).Nodup → ∀ l : StatsLookup, ∀ i < 8, ∀ j < 4, ∃ p,
        opponentAt rounds i j = some p ∧
          (l.withGenders roster).composition p = some (slotType i j)) := by
  have hok : validateRequest r = .ok () ↔ r.WellFormed :=
    (validateRequest_eq_ok_iff r).trans (requestViolations_eq_nil_iff r)
  refine ⟨hok, fun _ => validateRequest_error_ne_nil, ?_⟩
  intro haccepted hknown rounds roster hrounds hroster hkeys l i hi j hj
  obtain ⟨rounds', roster', hrounds', hroster', hlineup⟩ := (hok.mp haccepted).opponent hknown
  rw [hrounds, Option.some.injEq] at hrounds'
  rw [hroster, Option.some.injEq] at hroster'
  subst hrounds' hroster'
  exact hlineup.composition_opponentAt hkeys l hi hj

theorem validateRequest_accepts_exactly_of_template_lineup :
    let mixed : OpponentRound :=
      [⟨.mixed, "f1", "m1"⟩, ⟨.mixed, "f2", "m2"⟩, ⟨.mixed, "f3", "m3"⟩, ⟨.mixed, "f4", "m4"⟩]
    let split : OpponentRound :=
      [⟨.female, "f1", "f2"⟩, ⟨.female, "f3", "f4"⟩, ⟨.male, "m1", "m2"⟩, ⟨.male, "m3", "m4"⟩]
    let rounds := [mixed, split, mixed, split, mixed, split, mixed, split]
    let roster : List (PlayerId × Gender) := [("f1", .female), ("f2", .female), ("f3", .female),
      ("f4", .female), ("m1", .male), ("m2", .male), ("m3", .male), ("m4", .male)]
    let r : Request := { (default : Request) with
      availablePlayerIds := ["p1", "p2", "p3", "p4", "p5", "p6", "p7", "p8"],
      mode := .knownOpponent, opponentRounds := some rounds, opponentRoster := some roster }
    validateRequest r = .ok () ∧ (roster.map Prod.fst).Nodup ∧
      ∀ l : StatsLookup, ∀ i < 8, ∀ j < 4, ∃ p, opponentAt rounds i j = some p ∧
        (l.withGenders roster).composition p = some (slotType i j) := by
  intro mixed split rounds roster r
  have hok : validateRequest r = .ok () := (validateRequest_eq_ok_iff r).mpr (by decide)
  have hkeys : (roster.map Prod.fst).Nodup := by decide
  exact ⟨hok, hkeys, (validateRequest_accepts_exactly r).2.2 hok rfl rounds roster rfl rfl hkeys⟩

end DoublesLineup
