import DoublesLineup.Decimal.Text
/-! # Broken preconditions

Some operations have a precondition that their callers are meant to keep: a pair's two
players differ, a slot index is in range, a clamp's lower bound is at most its upper bound.
When a caller breaks one, the operation stops with a `Fault` that names the cause instead of
answering.
-/

namespace DoublesLineup

/-- Why an operation could not answer. -/
inductive Fault where
  /-- A pair was formed from one player twice. -/
  | repeatedPlayer (player : String)
  /-- A position past the end of a sequence of `length` entries was read. -/
  | indexOutOfBounds (length index : Nat)
  /-- A clamp was asked for with a lower bound above the upper, or a bound that is not a
  number. -/
  | invalidClamp (lower upper : Float)
  deriving Inhabited

/-- The message of a fault. Clamp bounds are written with a point even when integral. -/
def Fault.message : Fault → String
  | .repeatedPlayer p => s!"a pair cannot contain {p} twice"
  | .indexOutOfBounds length index => s!"index out of bounds: the len is {length} but the index is {index}"
  | .invalidClamp lower upper =>
    "min > max, or either was NaN. min = " ++ Decimal.Notation.debug.render lower ++ ", max = "
      ++ Decimal.Notation.debug.render upper

/-- The first line of a text: what stands before its first line feed, less a carriage return
right before that line feed; the whole text when it has no line feed. -/
def firstLine (s : String) : String :=
  match s.splitOn "\n" with
  | line :: _ :: _ => if line.endsWith "\r" then String.ofList line.toList.dropLast else line
  | _ => s

/-- The headline of a fault, as a one-line report shows it: the first line of its message,
which differs from the message only when a player's name breaks the line. -/
def Fault.headline (f : Fault) : String := firstLine f.message

/-- Clamps `x` into `[lower, upper]`; a value that is not a number stays as it is. The bounds
must be numbers with `lower ≤ upper`. -/
def clampChecked (x lower upper : Float) : Except Fault Float :=
  if lower ≤ upper then
    .ok (if x < lower then lower else if x > upper then upper else x)
  else .error (.invalidClamp lower upper)

/-- Clamps `x` into `[lower, upper]` for bounds known to be in order. -/
def clampTo (x lower upper : Float) : Float :=
  if x < lower then lower else if x > upper then upper else x

end DoublesLineup
