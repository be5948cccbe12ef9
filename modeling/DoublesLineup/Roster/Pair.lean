import DoublesLineup.Roster.Player
import DoublesLineup.Fault
/-! # Doubles pairs

A pair is two different players, kept with the smaller identifier first so that the same two
players always make the same value. Its key is the two identifiers joined by `|`, which is
also how a pair is written and read back.
-/

namespace DoublesLineup

/-- Two different players, `low` before `high` in identifier order. -/
structure Pair where
  /-- The player with the smaller identifier. -/
  low : PlayerId
  /-- The player with the larger identifier. -/
  high : PlayerId
  deriving Repr, DecidableEq, BEq, Hashable, Inhabited

namespace Pair

/-- The pair of two players in either order, or nothing when they are the same player. -/
def make? (a b : PlayerId) : Option Pair :=
  if a = b then none else if a < b then some ⟨a, b⟩ else some ⟨b, a⟩

/-- The pair of two players in either order; one player twice is a fault. -/
def make (a b : PlayerId) : Except Fault Pair :=
  match make? a b with
  | some p => .ok p
  | none => .error (.repeatedPlayer a)

/-- The two players, smaller identifier first. -/
def players (p : Pair) : List PlayerId := [p.low, p.high]

/-- Whether a player belongs to the pair. -/
def contains (p : Pair) (x : PlayerId) : Bool := p.low == x || p.high == x

/-- A pair contains exactly its two players. -/
theorem contains_iff_mem {p : Pair} {x : PlayerId} : p.contains x = true ↔ x ∈ p.players := by
  simp only [contains, players, Bool.or_eq_true, beq_iff_eq, List.mem_cons, List.not_mem_nil,
    or_false]
  exact ⟨fun h => h.imp Eq.symm Eq.symm, fun h => h.imp Eq.symm Eq.symm⟩

/-- The canonical key: the two identifiers in order, joined by `|`. -/
def key (p : Pair) : String := p.low ++ "|" ++ p.high

/-- Pairs compare by their smaller player, then by their larger one. -/
instance : Ord Pair where
  compare p q := (compare p.low q.low).then (compare p.high q.high)

/-- Reads a pair written as two identifiers around the first `|`. Both must be non-empty and
different; their order does not matter. -/
def parse (s : String) : Except String Pair :=
  let (first, rest) := s.toList.span (· != '|')
  match rest with
  | [] => .error "pair should be in the form <player>|<player>"
  | _ :: second =>
    if first.isEmpty || second.isEmpty then .error s!"pair '{s}' is missing a player"
    else match make? (String.ofList first) (String.ofList second) with
      | some p => .ok p
      | none => .error s!"pair '{s}' repeats a player"

end Pair

end DoublesLineup
