import DoublesLineup.Search.Wyrand
import DoublesLineup.Optimizer.Config
import DoublesLineup.Score.Basic
import DoublesLineup.Schedule.Known
import Std.Data.HashSet
/-! # Searching pairings of a large roster

Each restart draws a random pairing (a uniform shuffle of the roster, partnered off in
consecutive twos) and climbs: a pass scores every partner swap between two pairs, in the order
first pair, second pair, uncrossed before crossed, and moves to the first strictly best one
that improves on the current pairing. The climb stops when no swap improves, or after the
configured number of passes. Every pairing the climb leaves, and the one it ends on, joins a
pool that keeps the first pairing seen with each identifier. The pool, ordered by identifier,
is ranked by the objective. The search is deterministic for a seed.

The search takes its hasher (which names pairings) and its generator as parameters. A shuffle
swaps positions with a checked swap, which faults on a position past the end; a generator whose
draws stay below their limit never makes it fault.
-/

namespace DoublesLineup

/-- A pairing with its score and, against a known opponent, its schedule. -/
structure ScoredPairing where
  pairing : Pairing
  score : Score
  schedule : Option Schedule
  deriving Inhabited

/-- The identifier of the scored pairing. It is worked out when asked for, since most scored
pairings are never named. -/
def ScoredPairing.id {η : Type} (H : Hasher η) (s : ScoredPairing) : String := s.pairing.id H

/-- What a search did: pairings scored, moves made, distinct pairings pooled. -/
structure SearchStats where
  evaluations : Nat
  moves : Nat
  distinct : Nat
  deriving Repr, Inhabited

/-- Exchanges the entries at `i` and `j`; a position past the end is a fault, `i` checked
first. -/
def swapChecked {α : Type} (a : Array α) (i j : Nat) : Except Fault (Array α) :=
  if hi : i < a.size then
    if hj : j < a.size then .ok (a.swap i j hi hj) else .error (.indexOutOfBounds a.size j)
  else .error (.indexOutOfBounds a.size i)

/-- One step of a shuffle: position `index` is swapped with a position drawn below `index + 1`. -/
def shuffleStep {γ : Type} (G : Generator γ) (acc : Array PlayerId × γ) (index : Nat) :
    Except Fault (Array PlayerId × γ) := do
  let draw := G.below acc.2 (index + 1)
  pure (← swapChecked acc.1 index draw.1, draw.2)

/-- The roster shuffled by swapping each position from the last down to the second with a
position drawn at or before it. -/
def shuffle {γ : Type} (G : Generator γ) (players : List PlayerId) (g : γ) :
    Except Fault (List PlayerId × γ) := do
  let n := players.length
  let shuffled ← (List.range (n - 1)).foldlM (fun acc k => shuffleStep G acc (n - 1 - k))
    (players.toArray, g)
  pure (shuffled.1.toList, shuffled.2)

/-- Partners off consecutive players. -/
def partnerOff : List PlayerId → Except Fault (List Pair)
  | a :: b :: rest => do
    let p ← Pair.make a b
    pure (p :: (← partnerOff rest))
  | _ => pure []

/-- A random pairing of the roster. -/
def randomPairing {γ : Type} (G : Generator γ) (players : List PlayerId) (g : γ) :
    Except Fault (Pairing × γ) := do
  let (shuffled, g) ← shuffle G players g
  pure (⟨← partnerOff shuffled⟩, g)

/-- The swaps a pass examines, in order. -/
def swapMoves (size : Nat) : List (Nat × Nat × Bool) :=
  (List.range size).flatMap fun first =>
    ((List.range size).filter (first < ·)).flatMap fun second =>
      [(first, second, false), (first, second, true)]

/-- The pool of pairings met: each identifier once, the first pairing met with it kept. -/
structure Pool where
  seen : Std.HashSet String := {}
  /-- The pooled pairings with their identifiers, the latest to join first. -/
  entries : List (String × ScoredPairing) := []

/-- Adds a pairing unless one with its identifier is pooled. -/
def Pool.add {η : Type} (H : Hasher η) (p : Pool) (s : ScoredPairing) : Pool :=
  let id := s.id H
  if p.seen.contains id then p else ⟨p.seen.insert id, (id, s) :: p.entries⟩

/-- The pooled pairings in the order of their identifiers. -/
def Pool.byId (p : Pool) : List ScoredPairing :=
  (p.entries.reverse.mergeSort fun a b => decide (a.1 ≤ b.1)).map (·.2)

/-- The state of a search between steps, with a generator state in `γ`. -/
structure SearchState (γ : Type) where
  generator : γ
  pool : Pool := {}
  evaluations : Nat := 0
  moves : Nat := 0

/-- One step of a pass: the swap `move` of `current` is scored, and kept when it beats the best
kept so far (or `current`, while none is); the evaluations are counted. -/
def passStep (objective : Objective) (evaluate : Pairing → Except Fault ScoredPairing)
    (current : ScoredPairing) (acc : Option ScoredPairing × Nat) (move : Nat × Nat × Bool) :
    Except Fault (Option ScoredPairing × Nat) := do
  let neighbour ← evaluate (← current.pairing.swapPartners move.1 move.2.1 move.2.2)
  let reference := (acc.1.getD current).score
  let improves := Score.compare objective neighbour.score reference == .lt
  pure (if improves then some neighbour else acc.1, acc.2 + 1)

/-- One pass: the best improving neighbour of `current`, if any, and the evaluations made. -/
def bestNeighbour (objective : Objective) (evaluate : Pairing → Except Fault ScoredPairing)
    (current : ScoredPairing) : Except Fault (Option ScoredPairing × Nat) :=
  (swapMoves current.pairing.size).foldlM (passStep objective evaluate current) (none, 0)

/-- Climbs from `current` for at most `passes` passes. -/
def climb {η γ : Type} (H : Hasher η) (objective : Objective)
    (evaluate : Pairing → Except Fault ScoredPairing) :
    Nat → ScoredPairing → SearchState γ → Except Fault (ScoredPairing × SearchState γ)
  | 0, current, st => pure (current, st)
  | passes + 1, current, st => do
    let (best, count) ← bestNeighbour objective evaluate current
    let st := { st with evaluations := st.evaluations + count }
    match best with
    | none => pure (current, st)
    | some next =>
      climb H objective evaluate passes next
        { st with moves := st.moves + 1, pool := st.pool.add H current }

/-- One restart: a random pairing of the roster, climbed; the pairing the climb settles on joins
the pool. Returns that pairing and the state after the restart. -/
def restart {η γ : Type} (H : Hasher η) (G : Generator γ) (players : List PlayerId)
    (config : SearchConfig) (objective : Objective)
    (evaluate : Pairing → Except Fault ScoredPairing) (st : SearchState γ) :
    Except Fault (ScoredPairing × SearchState γ) := do
  let (pairing, g) ← randomPairing G players st.generator
  let current ← evaluate pairing
  let st := { st with generator := g, evaluations := st.evaluations + 1 }
  let (final, st) ← climb H objective evaluate config.maxPasses current st
  pure (final, { st with pool := st.pool.add H final })

/-- The state of a search after its first `k` restarts. -/
def searchState {η γ : Type} (H : Hasher η) (G : Generator γ) (players : List PlayerId)
    (config : SearchConfig) (objective : Objective)
    (evaluate : Pairing → Except Fault ScoredPairing) (k : Nat) : Except Fault (SearchState γ) :=
  (List.range k).foldlM (fun st _ => Prod.snd <$> restart H G players config objective evaluate st)
    { generator := G.seeded config.seed }

/-- Searches the pairings of a roster of distinct players; none for a roster that cannot be
paired up. -/
def searchPairings {η γ : Type} (H : Hasher η) (G : Generator γ) (players : List PlayerId)
    (config : SearchConfig) (objective : Objective)
    (evaluate : Pairing → Except Fault ScoredPairing) :
    Except Fault (List ScoredPairing × SearchStats) := do
  if players.length < 2 || players.length % 2 != 0 then return ([], ⟨0, 0, 0⟩)
  let st ← searchState H G players config objective evaluate config.restarts
  pure (rankBy (·.score) objective st.pool.byId,
    ⟨st.evaluations, st.moves, st.pool.entries.length⟩)

end DoublesLineup
