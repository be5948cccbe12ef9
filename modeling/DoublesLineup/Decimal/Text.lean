import DoublesLineup.Decimal.Shortest
/-! # Writing doubles as text

Three shortest forms and one fixed form, each a choice of a few parameters over the same
digits:

* `Notation.plain` never uses an exponent and writes integers without a point (`24`, `0.5`,
  `0.0000000001`);
* `Notation.debug` keeps `.0` on integers and switches to `1e16` or `1.5e-5` outside
  `[1e-4, 1e16)`;
* `Notation.data` keeps `.0` on integers and switches to an exponent outside `[1e-5, 1e16)`,
  written with its sign when positive (`1e+16`, `1.5e-7`), and breaks an exact tie between
  two shortest candidates towards the even digit where the other two go up;
* `fixed places` rounds the exact value to `places` decimals, a tie going to the even digit.

The sign of a negative value, negative zero included, is written. Not-a-number is `NaN` and
the infinities are `inf` and `-inf`.
-/

namespace DoublesLineup.Decimal

/-- The decisions a shortest form makes beyond its digits. -/
structure Notation where
  /-- The positions of the decimal point, counted from the first digit, at which the value is
  written without exponent; `none` for all positions. -/
  positional : Option (Int × Int)
  /-- Whether an integer keeps a point and a zero. -/
  pointZero : Bool
  /-- How an exact tie between two shortest candidates is broken. -/
  tie : Tie
  /-- Whether a positive exponent is written with a plus sign. -/
  plusExponent : Bool

/-- Integers bare, never an exponent. -/
def Notation.plain : Notation := ⟨none, false, .up, false⟩

/-- Integers with `.0`, an exponent below `1e-4` and from `1e16`. -/
def Notation.debug : Notation := ⟨some (-3, 16), true, .up, false⟩

/-- Integers with `.0`, an exponent below `1e-5` and from `1e+16`. -/
def Notation.data : Notation := ⟨some (-4, 16), true, .even, true⟩

/-- `n` zero characters. -/
def zeros (n : Nat) : String := String.ofList (List.replicate n '0')

/-- The digits `s` with the decimal point after `point` of them (before the first when
`point ≤ 0`, after trailing zeros when `point` exceeds their number). -/
def placePoint (s : String) (point : Int) (pointZero : Bool) : String :=
  let len : Int := s.length
  if point ≤ 0 then "0." ++ zeros (negPart point) ++ s
  else if len ≤ point then s ++ zeros (posPart (point - len)) ++ (if pointZero then ".0" else "")
  else
    let cs := s.toList
    String.ofList (cs.take (posPart point)) ++ "." ++ String.ofList (cs.drop (posPart point))

/-- The digits `s` as `d.ddde±x` for a decimal point after `point` digits; `plus` writes the
sign of a positive exponent. -/
def scientific (s : String) (point : Int) (plus : Bool) : String :=
  let cs := s.toList
  let head := String.ofList (cs.take 1)
  let tail := String.ofList (cs.drop 1)
  let sign := if plus ∧ point - 1 > 0 then "+" else ""
  head ++ (if tail.isEmpty then "" else "." ++ tail) ++ "e" ++ sign ++ toString (point - 1)

/-- The text of a finite nonzero magnitude `mantissa · 2 ^ exponent` in a notation. -/
def Notation.magnitude (style : Notation) (mantissa : Nat) (exponent : Int) : String :=
  let d := shortestDigits mantissa exponent style.tie
  let s := toString d.digits
  let point := (s.length : Int) + d.exponent
  match style.positional with
  | none => placePoint s point style.pointZero
  | some (lo, hi) =>
    if lo ≤ point ∧ point ≤ hi then placePoint s point style.pointZero
    else scientific s point style.plusExponent

/-- The shortest text of a double in a notation. -/
def Notation.render (style : Notation) (x : Float) : String :=
  match Binary.ofFloat x with
  | .nan => "NaN"
  | .infinite negative => if negative then "-inf" else "inf"
  | .finite negative mantissa exponent =>
    let sign := if negative then "-" else ""
    if mantissa = 0 then sign ++ (if style.pointZero then "0.0" else "0")
    else sign ++ style.magnitude mantissa exponent

/-- `num / den` rounded to the nearest integer, a tie going to the even one. -/
def roundHalfEven (num den : Nat) : Nat :=
  let q := num / den
  let r := num % den
  if 2 * r > den ∨ (2 * r = den ∧ q % 2 = 1) then q + 1 else q

/-- The exact value of a double rounded to `places` decimals, a tie going to the even last
digit, with its sign. -/
def fixed (places : Nat) (x : Float) : String :=
  match Binary.ofFloat x with
  | .nan => "NaN"
  | .infinite negative => if negative then "-inf" else "inf"
  | .finite negative mantissa exponent =>
    let scaled := roundHalfEven (mantissa * Nat.pow 2 (posPart exponent) * Nat.pow 10 places)
      (Nat.pow 2 (negPart exponent))
    let whole := toString (scaled / Nat.pow 10 places)
    let fraction := toString (scaled % Nat.pow 10 places)
    let body := if places = 0 then whole
      else whole ++ "." ++ zeros (places - fraction.length) ++ fraction
    (if negative then "-" else "") ++ body

end DoublesLineup.Decimal
