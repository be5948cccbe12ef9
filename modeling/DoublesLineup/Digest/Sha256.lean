/-! # Message digests

A hasher is fed a message in chunks and digests what it was fed (`Hasher`). Hashing libraries
document that chunks fed one after another digest as their concatenation
(`Hasher.Concatenates`). SHA-256 is the digest the program runs with: the message digest of
FIPS 180-4, where the message is padded to whole 64-byte blocks, each block is expanded into a
schedule of 64 words, and 64 rounds fold the schedule into an eight-word state. The digest is that
state written big-endian.
-/

namespace DoublesLineup

/-- A message digest fed in chunks: a fresh state, an update by a chunk of bytes, and the digest
of what was fed. -/
structure Hasher (σ : Type) where
  init : σ
  update : σ → List UInt8 → σ
  finalize : σ → List UInt8

/-- The digest of a message fed at once. -/
def Hasher.digest {σ : Type} (H : Hasher σ) (message : List UInt8) : List UInt8 :=
  H.finalize (H.update H.init message)

/-- Chunks fed one after another digest as their concatenation fed at once. -/
def Hasher.Concatenates {σ : Type} (H : Hasher σ) : Prop :=
  ∀ chunks : List (List UInt8), H.finalize (chunks.foldl H.update H.init) = H.digest chunks.flatten

end DoublesLineup

namespace DoublesLineup.Sha256

/-- The 64 round constants: the first 32 bits of the fractional parts of the cube roots of
the first 64 primes. -/
def roundConstants : Array UInt32 := #[
  0x428a2f98, 0x71374491, 0xb5c0fbcf, 0xe9b5dba5, 0x3956c25b, 0x59f111f1, 0x923f82a4, 0xab1c5ed5,
  0xd807aa98, 0x12835b01, 0x243185be, 0x550c7dc3, 0x72be5d74, 0x80deb1fe, 0x9bdc06a7, 0xc19bf174,
  0xe49b69c1, 0xefbe4786, 0x0fc19dc6, 0x240ca1cc, 0x2de92c6f, 0x4a7484aa, 0x5cb0a9dc, 0x76f988da,
  0x983e5152, 0xa831c66d, 0xb00327c8, 0xbf597fc7, 0xc6e00bf3, 0xd5a79147, 0x06ca6351, 0x14292967,
  0x27b70a85, 0x2e1b2138, 0x4d2c6dfc, 0x53380d13, 0x650a7354, 0x766a0abb, 0x81c2c92e, 0x92722c85,
  0xa2bfe8a1, 0xa81a664b, 0xc24b8b70, 0xc76c51a3, 0xd192e819, 0xd6990624, 0xf40e3585, 0x106aa070,
  0x19a4c116, 0x1e376c08, 0x2748774c, 0x34b0bcb5, 0x391c0cb3, 0x4ed8aa4a, 0x5b9cca4f, 0x682e6ff3,
  0x748f82ee, 0x78a5636f, 0x84c87814, 0x8cc70208, 0x90befffa, 0xa4506ceb, 0xbef9a3f7, 0xc67178f2]

/-- The initial state: the first 32 bits of the fractional parts of the square roots of the
first eight primes. -/
def initialState : Array UInt32 := #[
  0x6a09e667, 0xbb67ae85, 0x3c6ef372, 0xa54ff53a, 0x510e527f, 0x9b05688c, 0x1f83d9ab, 0x5be0cd19]

/-- Rotation to the right by `n` bits, for `0 < n < 32`. -/
def rotr (x : UInt32) (n : UInt32) : UInt32 :=
  (x >>> n) ||| (x <<< (32 - n))

/-- The schedule's small sigma functions and the rounds' big sigma functions. -/
def sigma0 (x : UInt32) : UInt32 := rotr x 7 ^^^ rotr x 18 ^^^ (x >>> 3)
def sigma1 (x : UInt32) : UInt32 := rotr x 17 ^^^ rotr x 19 ^^^ (x >>> 10)
def bigSigma0 (x : UInt32) : UInt32 := rotr x 2 ^^^ rotr x 13 ^^^ rotr x 22
def bigSigma1 (x : UInt32) : UInt32 := rotr x 6 ^^^ rotr x 11 ^^^ rotr x 25

/-- The choice and majority functions. -/
def choose (x y z : UInt32) : UInt32 := (x &&& y) ^^^ (~~~x &&& z)
def majority (x y z : UInt32) : UInt32 := (x &&& y) ^^^ (x &&& z) ^^^ (y &&& z)

/-- The big-endian bytes of the low `count` bytes of `n`. -/
def bigEndian (count n : Nat) : List UInt8 :=
  (List.range count).reverse.map fun i => (n / Nat.pow 256 i % 256).toUInt8

/-- The message followed by the byte `0x80`, zero bytes up to 56 modulo 64, and the message's
length in bits as eight big-endian bytes. -/
def pad (message : List UInt8) : List UInt8 :=
  let zeros := (119 - message.length % 64) % 64
  message ++ 0x80 :: List.replicate zeros 0 ++ bigEndian 8 (message.length * 8)

/-- Splits a list into consecutive chunks of `size` elements; the last may be shorter. -/
def chunks {α : Type} (size : Nat) (xs : List α) : List (List α) :=
  if _h : 0 < size ∧ 0 < xs.length then xs.take size :: chunks size (xs.drop size) else []
termination_by xs.length
decreasing_by simp only [List.length_drop]; omega

/-- The big-endian word made of four bytes. -/
def word (b₀ b₁ b₂ b₃ : UInt8) : UInt32 :=
  (b₀.toUInt32 <<< 24) ||| (b₁.toUInt32 <<< 16) ||| (b₂.toUInt32 <<< 8) ||| b₃.toUInt32

/-- The 64-word schedule of a 64-byte block: its sixteen big-endian words, then each word
from four earlier ones. -/
def schedule (block : Array UInt8) : Array UInt32 :=
  let initial := (List.range 16).foldl (fun w i =>
    w.push (word (block.getD (4 * i) 0) (block.getD (4 * i + 1) 0)
      (block.getD (4 * i + 2) 0) (block.getD (4 * i + 3) 0))) #[]
  (List.range 48).foldl (fun w j =>
    let i := j + 16
    w.push (sigma1 (w.getD (i - 2) 0) + w.getD (i - 7) 0 + sigma0 (w.getD (i - 15) 0)
      + w.getD (i - 16) 0)) initial

/-- The eight working variables of the compression rounds. -/
structure Working where
  a : UInt32
  b : UInt32
  c : UInt32
  d : UInt32
  e : UInt32
  f : UInt32
  g : UInt32
  h : UInt32

/-- One compression round with round constant `k` and schedule word `w`. -/
def Working.round (v : Working) (k w : UInt32) : Working :=
  let t₁ := v.h + bigSigma1 v.e + choose v.e v.f v.g + k + w
  let t₂ := bigSigma0 v.a + majority v.a v.b v.c
  { a := t₁ + t₂, b := v.a, c := v.b, d := v.c, e := v.d + t₁, f := v.e, g := v.f, h := v.g }

/-- Folds one block into the state. -/
def compress (state : Array UInt32) (block : Array UInt8) : Array UInt32 :=
  let w := schedule block
  let s (i : Nat) := state.getD i 0
  let start : Working := ⟨s 0, s 1, s 2, s 3, s 4, s 5, s 6, s 7⟩
  let v := (List.range 64).foldl (fun v i => v.round (roundConstants.getD i 0) (w.getD i 0)) start
  #[s 0 + v.a, s 1 + v.b, s 2 + v.c, s 3 + v.d, s 4 + v.e, s 5 + v.f, s 6 + v.g, s 7 + v.h]

/-- The 32-byte digest of a message. -/
def digest (message : List UInt8) : List UInt8 :=
  let state := (chunks 64 (pad message)).foldl (fun st block => compress st block.toArray)
    initialState
  state.toList.flatMap fun x => bigEndian 4 x.toNat

/-- SHA-256 fed in chunks: the state holds the bytes fed so far. -/
def hasher : Hasher (List UInt8) := ⟨[], (· ++ ·), digest⟩

end DoublesLineup.Sha256
