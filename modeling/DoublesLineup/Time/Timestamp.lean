import DoublesLineup.Text.Escape
/-! # Instants in RFC 3339 form

An instant is a count of seconds from 1970-01-01T00:00:00Z and the nanoseconds after it.
It is read from a date, a `T`, `t` or blank, a time with an optional fraction of a second, and
an offset (`Z`, `z`, `UTC`, or a sign with hours and minutes); a text that is not an instant is
refused with the reason. It is written in UTC with `Z`, its fraction given in milliseconds,
microseconds or nanoseconds, whichever is the shortest exact form, and left out when zero.
-/

namespace DoublesLineup

/-- An instant: seconds since the start of 1970 in UTC and nanoseconds after them. -/
structure Timestamp where
  /-- Whole seconds since 1970-01-01T00:00:00Z. -/
  seconds : Int
  /-- Nanoseconds after `seconds`: below `10 ^ 9`, or below `2 * 10 ^ 9` in a leap second. -/
  nanos : Nat
  deriving Repr, DecidableEq, BEq, Inhabited

namespace Timestamp

/-- Whether a year of the proleptic Gregorian calendar is a leap year. -/
def leapYear (y : Int) : Bool := (y % 4 == 0 && y % 100 != 0) || y % 400 == 0

/-- The number of days of a month of a year. -/
def monthLength (y : Int) (m : Nat) : Nat :=
  match m with
  | 2 => if leapYear y then 29 else 28
  | 4 | 6 | 9 | 11 => 30
  | _ => 31

/-- The days from 1970-01-01 to a civil date, by the era arithmetic of the proleptic
Gregorian calendar (eras of 400 years, counted by floor division so that years before 1 fall
in the eras below zero). -/
def daysFromCivil (y : Int) (m d : Nat) : Int :=
  let y := if m ≤ 2 then y - 1 else y
  let era := y / 400
  let yoe := y - era * 400
  let mp : Int := if m > 2 then (m : Int) - 3 else (m : Int) + 9
  let doy := (153 * mp + 2) / 5 + (d : Int) - 1
  let doe := yoe * 365 + yoe / 4 - yoe / 100 + doy
  era * 146097 + doe - 719468

/-- The civil date of a day counted from 1970-01-01. -/
def civilFromDays (z : Int) : Int × Nat × Nat :=
  let z := z + 719468
  let era := z / 146097
  let doe := z - era * 146097
  let yoe := (doe - doe / 1460 + doe / 36524 - doe / 146096) / 365
  let y := yoe + era * 400
  let doy := doe - (365 * yoe + yoe / 4 - yoe / 100)
  let mp := (5 * doy + 2) / 153
  let d := doy - (153 * mp + 2) / 5 + 1
  let m := if mp < 10 then mp + 3 else mp - 9
  ((if m ≤ 2 then y + 1 else y), m.toNat, d.toNat)

/-- A number written with at least `width` digits. -/
def padded (width n : Nat) : String :=
  let s := toString n
  String.ofList (List.replicate (width - s.length) '0') ++ s

/-- The year as four digits, or with a sign outside `0..9999`. -/
def yearText (y : Int) : String :=
  if 0 ≤ y ∧ y ≤ 9999 then padded 4 y.toNat
  else if y < 0 then "-" ++ padded 4 (-y).toNat
  else "+" ++ padded 4 y.toNat

/-- The fraction of a second: nothing, or three, six or nine digits. -/
def fractionText (nanos : Nat) : String :=
  if nanos = 0 then ""
  else if nanos % 1000000 = 0 then "." ++ padded 3 (nanos / 1000000)
  else if nanos % 1000 = 0 then "." ++ padded 6 (nanos / 1000)
  else "." ++ padded 9 nanos

/-- The instant in RFC 3339 form, in UTC; a leap second shows as second 60. -/
def render (t : Timestamp) : String :=
  let days := t.seconds / 86400
  let secs := (t.seconds % 86400).toNat
  let (y, m, d) := civilFromDays days
  let leap := if t.nanos ≥ 1000000000 then 1 else 0
  yearText y ++ "-" ++ padded 2 m ++ "-" ++ padded 2 d ++ "T" ++ padded 2 (secs / 3600) ++ ":"
    ++ padded 2 (secs / 60 % 60) ++ ":" ++ padded 2 (secs % 60 + leap)
    ++ fractionText (t.nanos - leap * 1000000000) ++ "Z"

/-- Why a text is not an instant. -/
inductive TimeFault where
  /-- A field is outside its range, or the instant outside the calendar. -/
  | outOfRange
  /-- No instant has the fields given. -/
  | impossible
  /-- A character is not what the form allows there. -/
  | invalid
  /-- The text ends inside a field. -/
  | tooShort
  /-- Something follows the instant. -/
  | tooLong
  deriving Repr, DecidableEq, Inhabited

/-- The wording of a fault. -/
def TimeFault.message : TimeFault → String
  | .outOfRange => "input is out of range"
  | .impossible => "no possible date and time matching input"
  | .invalid => "input contains invalid characters"
  | .tooShort => "premature end of input"
  | .tooLong => "trailing input"

/-- Whether a character is white space. -/
def isBlank (c : Char) : Bool := Text.isWhiteSpace c

/-- The text after its leading white space. -/
def trimStart (cs : List Char) : List Char := cs.dropWhile isBlank

/-- Reads between `least` and `most` decimal digits; a value past `2 ^ 63 - 1` is out of
range. -/
def number (cs : List Char) (least most : Nat) : Except TimeFault (Nat × List Char) :=
  if cs.isEmpty && least > 0 then .error .tooShort
  else
    let ds := (cs.take most).takeWhile Char.isDigit
    if ds.length < least then .error .invalid
    else
      let n := ds.foldl (fun acc c => acc * 10 + (c.toNat - 48)) 0
      if n > Nat.pow 2 63 - 1 then .error .outOfRange else .ok (n, cs.drop ds.length)

/-- A numeric field after optional white space. -/
def field (cs : List Char) (width : Nat) : Except TimeFault (Nat × List Char) :=
  number (trimStart cs) 1 width

/-- A numeric field within `[low, high]`. -/
def ranged (cs : List Char) (width low high : Nat) : Except TimeFault (Nat × List Char) := do
  let (v, rest) ← field cs width
  if low ≤ v ∧ v ≤ high then pure (v, rest) else throw .outOfRange

/-- A literal character after optional white space. -/
def literal (cs : List Char) (ch : Char) : Except TimeFault (List Char) :=
  match trimStart cs with
  | [] => .error .tooShort
  | c :: rest => if c = ch then .ok rest else .error .invalid

/-- The year: up to four digits, or a sign and any number of digits. -/
def year (cs : List Char) : Except TimeFault (Int × List Char) := do
  let (y, rest) ← match trimStart cs with
    | '-' :: r => do
      let (v, rest) ← number r 1 r.length
      pure (-(v : Int), rest)
    | '+' :: r => do
      let (v, rest) ← number r 1 r.length
      pure ((v : Int), rest)
    | r => do
      let (v, rest) ← number r 1 4
      pure ((v : Int), rest)
  if -(Nat.pow 2 31 : Int) ≤ y ∧ y < (Nat.pow 2 31 : Int) then pure (y, rest) else throw .outOfRange

/-- An optional fraction of a second, as nanoseconds: nine digits count, more are skipped. -/
def fraction (cs : List Char) : Except TimeFault (Nat × List Char) :=
  match cs with
  | '.' :: rest => do
    let (v, after) ← number rest 1 9
    let used := rest.length - after.length
    pure (v * Nat.pow 10 (9 - used), after.dropWhile Char.isDigit)
  | _ => .ok (0, cs)

/-- The number of bytes the characters take in UTF-8. -/
def byteLength (cs : List Char) : Nat := cs.foldr (fun c n => c.utf8Size + n) 0

/-- Two digits of an offset, or why there are none. -/
def twoDigits (cs : List Char) : Except TimeFault (Char × Char × List Char) :=
  if byteLength (cs.take 2) < 2 then .error .tooShort
  else match cs with
    | a :: b :: rest => .ok (a, b, rest)
    | _ => .error .invalid

/-- The offset from UTC in seconds: `Z`, or a sign, two digits of hours, optional colons or
blanks, and two digits of minutes. -/
def offset (cs : List Char) : Except TimeFault (Int × List Char) :=
  match cs with
  | 'Z' :: rest | 'z' :: rest => .ok (0, rest)
  | sign :: rest => do
    let negative ← if sign = '+' then pure false
      else if sign = '-' ∨ sign.toNat = 0x2212 then pure true
      else throw .invalid
    let (h1, h2, rest) ← twoDigits rest
    if !(h1.isDigit && h2.isDigit) then throw .invalid
    let hours := (h1.toNat - 48) * 10 + (h2.toNat - 48)
    let rest := rest.dropWhile fun c => c = ':' || isBlank c
    let (m1, m2, rest) ← twoDigits rest
    if !m2.isDigit || !m1.isDigit then throw .invalid
    if m1 > '5' then throw .outOfRange
    let seconds := (hours * 3600 + ((m1.toNat - 48) * 10 + (m2.toNat - 48)) * 60 : Nat)
    pure (if negative then -(seconds : Int) else seconds, rest)
  | [] => .error .tooShort

/-- The least year of the calendar. -/
def minYear : Int := -262143

/-- The greatest year of the calendar. -/
def maxYear : Int := 262142

/-- Reads an instant in the relaxed RFC 3339 form: a date `Y-M-D` (a year of up to four
digits or signed, a month and a day of one or two digits), `T`, `t` or a blank, a time
`H:M:S` with an optional fraction, and an offset (`Z`, `UTC` in any case, or signed hours and
minutes). White space may come before each number and around the offset. A second of 60 is a
leap second. -/
def read (s : String) : Except TimeFault Timestamp := do
  let cs := s.toList
  let (y, cs) ← year cs
  let cs ← literal cs '-'
  let (mo, cs) ← ranged cs 2 1 12
  let cs ← literal cs '-'
  let (d, cs) ← ranged cs 2 1 31
  let cs ← match cs with
    | [] => throw .tooShort
    | c :: rest => if c = 'T' ∨ c = 't' ∨ c = ' ' then pure rest else throw .invalid
  let (h, cs) ← ranged cs 2 0 23
  let cs ← literal cs ':'
  let (mi, cs) ← ranged cs 2 0 59
  let cs ← literal cs ':'
  let (sec, cs) ← ranged cs 2 0 60
  let (nanos, cs) ← fraction cs
  let cs := trimStart cs
  if cs.isEmpty then throw .tooShort
  let (off, cs) ← match cs with
    | u :: t :: c :: rest =>
      if u.toLower = 'u' ∧ t.toLower = 't' ∧ c.toLower = 'c' then pure (0, rest) else offset cs
    | _ => offset cs
  if !(trimStart cs).isEmpty then throw .tooLong
  if y < minYear ∨ y > maxYear ∨ d > monthLength y mo then throw .outOfRange
  if off.natAbs ≥ 86400 then throw .outOfRange
  -- a leap second is carried as the second before it with more than 10 ^ 9 nanoseconds
  let (sec, nanos) := if sec = 60 then (59, nanos + 1000000000) else (sec, nanos)
  let utc := daysFromCivil y mo d * 86400 + (h * 3600 + mi * 60 + sec : Nat) - off
  if utc < daysFromCivil minYear 1 1 * 86400 ∨ utc ≥ daysFromCivil (maxYear + 1) 1 1 * 86400 then
    throw .impossible
  pure ⟨utc, nanos⟩

/-- Reads an instant, if the text is one. -/
def parse (s : String) : Option Timestamp :=
  match read s with
  | .ok t => some t
  | .error _ => none

end Timestamp

end DoublesLineup
