/-! # Doubles: order, extremes and conversions

Operations on doubles that the arithmetic of core leaves out:

* `totalKey` orders all doubles, signed zeros and not-a-number included: negative
  not-a-numbers, then the negative numbers, `-0.0`, `+0.0`, the positive numbers, and the
  positive not-a-numbers last;
* `maxNum` and `minNum` return the other operand when one is not a number, and otherwise
  order `-0.0` below `+0.0` (the maximumNumber and minimumNumber of IEEE 754-2019);
* `ceilIndex` rounds up to an integer and saturates into the naturals below `2 ^ 64`:
  not-a-number and everything at or below zero give 0, values past `2 ^ 64 - 1` give
  `2 ^ 64 - 1`. It reads the double through its unpacked model, as a mantissa times a power of
  two, since core's rounding up has no model to reason with.
-/

namespace DoublesLineup

/-- The quiet not-a-number with the sign bit clear. -/
def quietNaN : Float := Float.ofBits 0x7FF8000000000000

/-- Positive infinity. -/
def infinity : Float := Float.ofBits 0x7FF0000000000000

/-- A key whose order is the total order of doubles: a double with the sign bit clear is
moved above all with the sign bit set (`bits + 2 ^ 63`), and one with the sign bit set is
reflected below them (`2 ^ 64 - 1 - bits`), so that a larger magnitude gives a smaller key.
Neither sum wraps around. -/
def totalKey (x : Float) : UInt64 :=
  let bits := x.toBits
  if bits < 0x8000000000000000 then bits + 0x8000000000000000 else 0xFFFFFFFFFFFFFFFF - bits

/-- Compares two doubles in the total order. -/
def totalCompare (x y : Float) : Ordering := compare (totalKey x) (totalKey y)

/-- Whether a double has its sign bit set: the negative numbers, `-0.0` and the negative
not-a-numbers. -/
def signBit (x : Float) : Bool := x.toBits ≥ 0x8000000000000000

/-- The larger of two doubles, ignoring a not-a-number; of two zeros, `+0.0` if either is. -/
def maxNum (x y : Float) : Float :=
  if x.isNaN then y else if y.isNaN then x
  else if y > x then y else if x > y then x
  else if signBit x then y else x

/-- The smaller of two doubles, ignoring a not-a-number; of two zeros, `-0.0` if either is. -/
def minNum (x y : Float) : Float :=
  if x.isNaN then y else if y.isNaN then x
  else if y < x then y else if x < y then x
  else if signBit x then x else y

/-- A double rounded up to an integer, as a natural number below `2 ^ 64`, saturating at both
ends. A positive finite double `m * 2 ^ e` rounds up to itself when `e ≥ 0`, and otherwise to `m`
divided by `2 ^ -e` and rounded up; the positive infinity saturates, and not-a-number and
everything else (no more than zero) gives 0. -/
def ceilIndex (x : Float) : Nat :=
  match x.toModel.unpack with
  | .finite .positive m e _ =>
    let up := if e < 0 then (m + Nat.pow 2 (-e).toNat - 1) / Nat.pow 2 (-e).toNat
      else m * Nat.pow 2 e.toNat
    min up (Nat.pow 2 64 - 1)
  | .infinity .positive => Nat.pow 2 64 - 1
  | _ => 0

/-- A natural number as the nearest double. -/
def natToFloat (n : Nat) : Float := n.toUInt64.toFloat

end DoublesLineup
