import DoublesLineup.Roster.Pair
import DoublesLineup.Digest.Sha256
/-! # Pairings

A pairing splits a roster into doubles pairs. Its identifier does not depend on the order of
its pairs: it is the digest of the pairs in sorted order, each player fed to the hasher as its
byte length and then its bytes, so that identifiers holding a separator cannot run together.
-/

namespace DoublesLineup

/-- A list of pairs, meant to split a roster. -/
structure Pairing where
  /-- The pairs, in the order they were formed. -/
  pairs : List Pair
  deriving Repr, DecidableEq, BEq, Inhabited

namespace Pairing

/-- The number of pairs. -/
def size (p : Pairing) : Nat := p.pairs.length

/-- The keys of the pairs in sorted order. -/
def keys (p : Pairing) : List String :=
  (p.pairs.map Pair.key).mergeSort fun a b => decide (a ≤ b)

/-- The eight little-endian bytes of a number below `2 ^ 64`. -/
def littleEndian64 (n : Nat) : List UInt8 :=
  (List.range 8).map fun i => (n / Nat.pow 256 i % 256).toUInt8

/-- A player's length-prefixed bytes. -/
def encodePlayer (player : PlayerId) : List UInt8 :=
  littleEndian64 player.utf8ByteSize ++ player.toUTF8.toList

/-- The bytes the identifier digests: the pairs sorted, each player length-prefixed. -/
def encoding (p : Pairing) : List UInt8 :=
  (p.pairs.mergeSort fun a b => compare a b != .gt).flatMap fun pair =>
    encodePlayer pair.low ++ encodePlayer pair.high

/-- Two lower-case hexadecimal digits of a byte. -/
def hexByte (b : UInt8) : String :=
  let digit (n : Nat) : Char := if n < 10 then Char.ofNat (48 + n) else Char.ofNat (87 + n)
  String.ofList [digit (b.toNat / 16), digit (b.toNat % 16)]

/-- The chunks the identifier feeds its hasher: the pairs sorted, and of each pair's players the
byte length as eight little-endian bytes, then the bytes. -/
def updates (p : Pairing) : List (List UInt8) :=
  (p.pairs.mergeSort fun a b => compare a b != .gt).flatMap fun pair =>
    pair.players.flatMap fun player => [littleEndian64 player.utf8ByteSize, player.toUTF8.toList]

/-- The identifier: the first eight bytes of the digest of the chunks, in hexadecimal. -/
def id {σ : Type} (H : Hasher σ) (p : Pairing) : String :=
  String.join ((H.finalize (p.updates.foldl H.update H.init)).take 8 |>.map hexByte)

/-- The pairs' keys in their own order, as `[a|b, c|d]`. -/
def display (p : Pairing) : String :=
  "[" ++ ", ".intercalate (p.pairs.map Pair.key) ++ "]"

/-- Every player of the pairing, pair by pair, the smaller identifier of each pair first. -/
def members (p : Pairing) : List PlayerId := p.pairs.flatMap Pair.players

/-- The players of a list of pairs number two per pair. -/
theorem length_flatMap_players (ps : List Pair) :
    (ps.flatMap Pair.players).length = 2 * ps.length := by
  induction ps with
  | nil => rfl
  | cons q ps ih =>
    rw [List.flatMap_cons, List.length_append, ih]
    simp only [Pair.players, List.length_cons, List.length_nil]
    omega

/-- A pairing has two members for each pair. -/
theorem length_members (p : Pairing) : p.members.length = 2 * p.pairs.length :=
  length_flatMap_players p.pairs

/-- The members are the players that some pair contains. -/
theorem mem_members {p : Pairing} {x : PlayerId} :
    x ∈ p.members ↔ ∃ q ∈ p.pairs, q.contains x = true := by
  simp only [members, List.mem_flatMap, Pair.contains_iff_mem]

/-- Whether every listed player is in exactly one pair and the pairs hold nobody else. -/
def partitions (p : Pairing) (players : List PlayerId) : Bool :=
  p.pairs.length * 2 == players.length &&
    players.all fun x => (p.pairs.filter (·.contains x)).length == 1

/-- The pair at a position; a position past the end is a fault. -/
def pairAt (p : Pairing) (i : Nat) : Except Fault Pair :=
  match p.pairs[i]? with
  | some pair => .ok pair
  | none => .error (.indexOutOfBounds p.pairs.length i)

theorem pairAt_of_lt {p : Pairing} {i : Nat} (h : i < p.pairs.length) :
    p.pairAt i = .ok p.pairs[i] := by
  simp [pairAt, List.getElem?_eq_getElem h]

/-- Exchanges partners between the pairs at `first` and `second`. Without `cross` the two
smaller players become partners, as do the two larger; with `cross` each smaller player goes
with the other pair's larger one. -/
def swapPartners (p : Pairing) (first second : Nat) (cross : Bool) : Except Fault Pairing := do
  let x ← p.pairAt first
  let y ← p.pairAt second
  let (left, right) ←
    if cross then do
      let l ← Pair.make x.low y.high
      let r ← Pair.make x.high y.low
      pure (l, r)
    else do
      let l ← Pair.make x.low y.low
      let r ← Pair.make x.high y.high
      pure (l, r)
  pure ⟨(p.pairs.set first left).set second right⟩

end Pairing

end DoublesLineup
