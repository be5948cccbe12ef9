import DoublesLineup.Roster.Pairing
/-! # Perfect matchings of a roster

`countPairings n` is the number of ways to split `n` players into unordered pairs: the product
of the odd numbers below `n` when `n` is even and at least two, and zero otherwise; it is kept
modulo `2 ^ 64`. `enumerate` lists those ways. It pairs the first player with each later one
in turn and recurses on the players left, so the pairings come in that order and the pairs of
each pairing in the order they were formed. A player listed twice makes a pair of one player,
which is a fault.
-/

namespace DoublesLineup

/-- The number of perfect matchings of `n` players, modulo `2 ^ 64`. -/
def countPairings (n : Nat) : Nat :=
  if n < 2 ∨ n % 2 ≠ 0 then 0
  else ((List.range (n / 2)).foldl (fun acc i => acc * (2 * i + 1)) 1) % Nat.pow 2 64

/-- Each element of a list with the list of the others, in the list's order. -/
def picks {α : Type} : List α → List (α × List α)
  | [] => []
  | y :: ys => (y, ys) :: (picks ys).map fun (z, zs) => (z, y :: zs)

theorem length_of_mem_picks {α : Type} : ∀ {xs : List α} {y : α} {zs : List α},
    (y, zs) ∈ picks xs → zs.length + 1 = xs.length
  | [], _, _, h => by simp [picks] at h
  | x :: xs, y, zs, h => by
    simp only [picks, List.mem_cons, Prod.mk.injEq, List.mem_map, Prod.exists] at h
    rcases h with ⟨rfl, rfl⟩ | ⟨z, ws, hm, rfl, rfl⟩
    · rfl
    · have := length_of_mem_picks hm
      simp [this]

/-- Every way to split the players into pairs, the first player partnered with each later one
in turn. -/
def matchings : List PlayerId → Except Fault (List (List Pair))
  | [] => .ok [[]]
  | x :: rest => do
    let groups ← (picks rest).attach.mapM fun ⟨(y, others), _⟩ => do
      let pair ← Pair.make x y
      let tails ← matchings others
      pure (tails.map (pair :: ·))
    pure groups.flatten
termination_by players => players.length
decreasing_by
  have := length_of_mem_picks ‹_›
  simp only [List.length_cons]
  omega

/-- Every pair of two different players of the roster, each once. -/
def rosterPairs : List PlayerId → List Pair
  | [] => []
  | x :: rest => rest.filterMap (Pair.make? x) ++ rosterPairs rest

/-- Every pairing of the roster, none when it cannot be paired up. -/
def enumerate (players : List PlayerId) : Except Fault (List Pairing) :=
  if countPairings players.length = 0 then .ok []
  else (matchings players).map (·.map Pairing.mk)

end DoublesLineup
