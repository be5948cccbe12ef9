/-! # Binary64 values and their shortest decimal digits

A finite double is `±mantissa · 2 ^ exponent`. Every real strictly between the midpoints to its
two neighbours reads back as that double, and so do the midpoints themselves when the mantissa
is even (a tie goes to the even neighbour). `shortestDigits` finds the fewest decimal digits
whose value lies in that interval and, of the two candidates on that decimal grid, the one
nearer the double. All arithmetic is on natural numbers, so the result is exact.
-/

namespace DoublesLineup.Decimal

/-- What a double is: not a number, an infinity, or a finite value `±mantissa · 2 ^ exponent`. -/
inductive Binary where
  /-- Not a number. -/
  | nan
  /-- An infinity, negative or positive. -/
  | infinite (negative : Bool)
  /-- A finite value, zero included; `negative` is the sign bit. -/
  | finite (negative : Bool) (mantissa : Nat) (exponent : Int)
  deriving Repr, DecidableEq

/-- How an exact tie between the two nearest candidates of a decimal grid is broken. -/
inductive Tie where
  /-- The larger candidate. -/
  | up
  /-- The candidate whose last digit is even. -/
  | even
  deriving Repr, DecidableEq

/-- The candidate a tie picks from the adjacent `below` and `below + 1`. -/
def Tie.pick : Tie → Nat → Nat
  | .up, below => below + 1
  | .even, below => if below % 2 = 0 then below else below + 1

/-- Decodes the 64 bits of a double: one sign bit, eleven exponent bits, 52 fraction bits. -/
def Binary.ofBits (bits : Nat) : Binary :=
  let negative : Bool := bits / Nat.pow 2 63 % 2 == 1
  let biased : Nat := bits / Nat.pow 2 52 % Nat.pow 2 11
  let fraction : Nat := bits % Nat.pow 2 52
  if biased = 2047 then
    if fraction = 0 then .infinite negative else .nan
  else if biased = 0 then .finite negative fraction (-1074)
  else .finite negative (fraction + Nat.pow 2 52) ((biased : Int) - 1075)

/-- The decoded form of a double. -/
def Binary.ofFloat (x : Float) : Binary :=
  Binary.ofBits x.toBits.toNat

/-- The positive part of an integer, as a natural number. -/
def posPart (k : Int) : Nat := k.toNat

/-- The negative part of an integer, as a natural number. -/
def negPart (k : Int) : Nat := (-k).toNat

/-- Compares `c · 10 ^ k` with `n · 2 ^ a`, both sides multiplied by the positive number
`10 ^ negPart k · 2 ^ negPart a` so that only natural numbers occur. -/
def compareScaled (c : Nat) (k : Int) (n : Nat) (a : Int) : Ordering :=
  compare (c * Nat.pow 10 (posPart k) * Nat.pow 2 (negPart a)) (n * Nat.pow 2 (posPart a) * Nat.pow 10 (negPart k))

/-- The number of decimal digits of a positive number. -/
def decimalLength (n : Nat) : Nat := (Nat.toDigits 10 n).length

/-- `⌊log₁₀ (num / den)⌋` for positive `num` and `den`. Above one it is the number of digits
of the integer part, less one; below one, `-t` for the least `t` with `10 ^ t · num ≥ den`. -/
def floorLog10 (num den : Nat) : Int :=
  if den ≤ num then (decimalLength (num / den) : Int) - 1
  else
    let t := decimalLength (den / num)
    if num * Nat.pow 10 (t - 1) = den then -((t : Int) - 1) else -(t : Int)

/-- Decimal digits `digits · 10 ^ exponent`. -/
structure Digits where
  digits : Nat
  exponent : Int
  deriving Repr, DecidableEq

/-- Drops trailing zero digits, raising the exponent; at most `fuel` of them. -/
def Digits.trim : Nat → Digits → Digits
  | 0, d => d
  | fuel + 1, d =>
    if d.digits ≠ 0 ∧ d.digits % 10 = 0 then
      Digits.trim fuel ⟨d.digits / 10, d.exponent + 1⟩
    else d

/-- The rounding interval of `mantissa · 2 ^ exponent`, in units of `2 ^ (exponent - 2)`: its
lower end, its upper end, and whether the ends belong to it. The gap below is half as wide
when the mantissa is the least of a binade above the smallest one. -/
def interval (mantissa : Nat) (exponent : Int) : Nat × Nat × Bool :=
  let asymmetric := mantissa = Nat.pow 2 52 ∧ exponent > -1074
  ((if asymmetric then 4 * mantissa - 1 else 4 * mantissa - 2), 4 * mantissa + 2,
    mantissa % 2 == 0)

/-- Whether `c · 10 ^ k` lies in the rounding interval of `mantissa · 2 ^ exponent`. -/
def readsBack (mantissa : Nat) (exponent : Int) (c : Nat) (k : Int) : Bool :=
  let (low, high, closed) := interval mantissa exponent
  let a := exponent - 2
  let aboveLow := match compareScaled c k low a with
    | .gt => true
    | .eq => closed
    | .lt => false
  let belowHigh := match compareScaled c k high a with
    | .lt => true
    | .eq => closed
    | .gt => false
  aboveLow && belowHigh

/-- The nearest candidate on the grid `10 ^ k` with `n` significant digits, if one of the two
neighbours of the value reads back; an exact tie is broken by `tie`. -/
def candidate (mantissa : Nat) (exponent : Int) (k : Int) (tie : Tie) : Option Digits :=
  let below := mantissa * Nat.pow 2 (posPart exponent) * Nat.pow 10 (negPart k) /
    (Nat.pow 2 (negPart exponent) * Nat.pow 10 (posPart k))
  let above := below + 1
  let okBelow := below ≠ 0 && readsBack mantissa exponent below k
  let okAbove := readsBack mantissa exponent above k
  if okBelow && okAbove then
    -- compare the midpoint of the two candidates with the value itself
    match compareScaled (below + above) k (2 * mantissa) exponent with
    | .gt => some ⟨below, k⟩
    | .lt => some ⟨above, k⟩
    | .eq => some ⟨tie.pick below, k⟩
  else if okBelow then some ⟨below, k⟩
  else if okAbove then some ⟨above, k⟩
  else none

/-- Tries 1, 2, … significant digits in turn, `fuel` more times. -/
def searchDigits (mantissa : Nat) (exponent : Int) (top : Int) (tie : Tie) :
    Nat → Nat → Option Digits
  | 0, _ => none
  | fuel + 1, n =>
    match candidate mantissa exponent (top - n + 1) tie with
    | some d => some d
    | none => searchDigits mantissa exponent top tie fuel (n + 1)

/-- The fewest significant digits that read back as the positive double
`mantissa · 2 ^ exponent`, the nearer of two when there are two, without trailing zeros.
Seventeen digits always suffice; the exact value is the answer should they not. -/
def shortestDigits (mantissa : Nat) (exponent : Int) (tie : Tie) : Digits :=
  let top := floorLog10 (mantissa * Nat.pow 2 (posPart exponent)) (Nat.pow 2 (negPart exponent))
  let found := (searchDigits mantissa exponent top tie 17 1).getD
    ⟨mantissa * Nat.pow 2 (posPart exponent) * Nat.pow 5 (negPart exponent), -(negPart exponent : Int)⟩
  found.trim 400

end DoublesLineup.Decimal
