import DoublesLineup.Roster.Pair
/-! # The match template and the opponent's known lineup

A team match has eight rounds of four slots. Even rounds (counting from zero) are all mixed;
odd rounds are women's, women's, men's, men's. When the opponent's lineup is known, each slot
names the opponent's two players; a slot that is missing, or that repeats a player, has no
opponent pair.
-/

namespace DoublesLineup

/-- The number of rounds in a match. -/
def roundCount : Nat := 8

/-- The number of slots in a round. -/
def slotCount : Nat := 4

/-- The match types of a round's slots. -/
def roundTemplate (round : Nat) : List MatchType :=
  if round % 2 = 0 then [.mixed, .mixed, .mixed, .mixed] else [.female, .female, .male, .male]

/-- The match type of a slot of a round. -/
def slotType (round slot : Nat) : MatchType :=
  (roundTemplate round).getD slot .mixed

/-- The opponent's entry for one slot. -/
structure OpponentSlot where
  matchType : MatchType
  playerA : PlayerId
  playerB : PlayerId
  deriving Inhabited

/-- The opponent's entries for one round. -/
abbrev OpponentRound := List OpponentSlot

/-- The opponent pair of a round and slot, if it was given and names two players. -/
def opponentAt (rounds : List OpponentRound) (round slot : Nat) : Option Pair := do
  let r ← rounds[round]?
  let s ← r[slot]?
  Pair.make? s.playerA s.playerB

end DoublesLineup
