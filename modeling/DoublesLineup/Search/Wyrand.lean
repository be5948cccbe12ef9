/-! # Seeded random generators

The search draws from a generator made from a seed: each draw is a number below a positive limit,
and returns the advanced generator (`Generator`). A generator of uniform draws documents that a
draw stays below its limit (`Generator.DrawsBelow`).

The program runs with Wyrand: the state advances by a fixed odd constant, and each output is the
128-bit product of the state with a scrambled copy of itself, its two halves combined by
exclusive or. A number below a limit is drawn by multiplying an output by the limit and keeping
the high half, redrawing while the low half falls below `2 ^ 64 mod limit`, which removes the
bias.
-/

namespace DoublesLineup

/-- A seeded source of draws below a limit, with states in `σ`. -/
structure Generator (σ : Type) where
  seeded : Nat → σ
  below : σ → Nat → Nat × σ

/-- Every draw below a positive limit is less than the limit. -/
def Generator.DrawsBelow {σ : Type} (G : Generator σ) : Prop :=
  ∀ (g : σ) (limit : Nat), 0 < limit → (G.below g limit).1 < limit

/-- The state of Wyrand. -/
structure Wyrand where
  state : UInt64
  deriving Repr, Inhabited

namespace Wyrand

/-- A generator seeded with a 64-bit number. -/
def seeded (seed : Nat) : Wyrand := ⟨seed.toUInt64⟩

/-- The next 64-bit output and the advanced generator. -/
def next (g : Wyrand) : UInt64 × Wyrand :=
  let s := g.state + 0xa0761d6478bd642f
  let r := s.toNat * (s ^^^ 0xe7037ed1a0b428db).toNat
  ((r % Nat.pow 2 64 ^^^ r / Nat.pow 2 64).toUInt64, ⟨s⟩)

/-- Draws again while the low half of `output · limit` is below the cutoff; `fuel` bounds the
draws (each is rejected with probability below one half). -/
def redraw (limit cutoff : Nat) : Nat → Wyrand → Nat × Wyrand
  | 0, g => (0, g)
  | fuel + 1, g =>
    let (x, g) := g.next
    let full := x.toNat * limit
    if full % Nat.pow 2 64 < cutoff then redraw limit cutoff fuel g else (full / Nat.pow 2 64, g)

/-- A number below `limit` (which must be positive), without bias. -/
def below (g : Wyrand) (limit : Nat) : Nat × Wyrand :=
  let (x, g) := g.next
  let full := x.toNat * limit
  if full % Nat.pow 2 64 < limit then
    let cutoff := (Nat.pow 2 64 - limit) % limit
    if full % Nat.pow 2 64 < cutoff then redraw limit cutoff 128 g else (full / Nat.pow 2 64, g)
  else (full / Nat.pow 2 64, g)

/-- Wyrand as a generator for the search. -/
def generator : Generator Wyrand := ⟨seeded, below⟩

end Wyrand

end DoublesLineup
