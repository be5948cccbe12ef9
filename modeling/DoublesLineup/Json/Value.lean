/-! # JSON values

A JSON document as this library reads and writes it. Numbers keep the class they were written
in: a non-negative integer that fits in 64 bits, a negative integer that fits in 64 bits, or a
double for everything else. The class decides which fields accept the number: an integer field
refuses `2.0`. Objects keep their members in document order; a reader that wants one value per
key takes the last.
-/

namespace DoublesLineup

/-- A JSON number in the class it was written in. -/
inductive Number where
  /-- An integer in `[0, 2 ^ 64)`. -/
  | nat (n : Nat)
  /-- An integer in `[-2 ^ 63, 0)`. -/
  | neg (n : Int)
  /-- Any other number, as the nearest double the reader found. -/
  | float (x : Float)
  deriving Inhabited

/-- A JSON value. -/
inductive Json where
  /-- `null`. -/
  | null
  /-- `true` or `false`. -/
  | bool (b : Bool)
  /-- A number. -/
  | num (n : Number)
  /-- A string. -/
  | str (s : String)
  /-- An array. -/
  | arr (items : List Json)
  /-- An object, its members in document order. -/
  | obj (members : List (String × Json))
  deriving Inhabited

namespace Number

/-- The number as a double, rounding an integer to the nearest double. -/
def toFloat : Number → Float
  | .nat n => n.toUInt64.toFloat
  | .neg n => -((-n).toNat.toUInt64.toFloat)
  | .float x => x

end Number

namespace Json

/-- A double as a JSON number. -/
def ofFloat (x : Float) : Json := .num (.float x)

/-- A natural number as a JSON number. -/
def ofNat (n : Nat) : Json := .num (.nat n)

/-- An optional value, `null` when absent. -/
def ofOption {α : Type} (f : α → Json) : Option α → Json
  | some a => f a
  | none => .null

/-- The value of the last member named `key`, if the value is an object that has one. -/
def field? (j : Json) (key : String) : Option Json :=
  match j with
  | .obj members => (members.reverse.find? (·.1 == key)).map (·.2)
  | _ => none

/-- The value of the last member named `key`, treating `null` as absent. -/
def present? (j : Json) (key : String) : Option Json :=
  match j.field? key with
  | some .null => none
  | other => other

/-- The text of a string value. -/
def str? : Json → Option String
  | .str s => some s
  | _ => none

/-- The items of an array value. -/
def arr? : Json → Option (List Json)
  | .arr items => some items
  | _ => none

/-- The members of an object value. -/
def obj? : Json → Option (List (String × Json))
  | .obj members => some members
  | _ => none

/-- A boolean value. -/
def bool? : Json → Option Bool
  | .bool b => some b
  | _ => none

/-- A number value, as a double. -/
def float? : Json → Option Float
  | .num n => some n.toFloat
  | _ => none

/-- A non-negative integer value. -/
def nat? : Json → Option Nat
  | .num (.nat n) => some n
  | _ => none

/-- Sets the member `key` of an object, replacing every member of that name or adding one at
the end. -/
def set (j : Json) (key : String) (value : Json) : Json :=
  match j with
  | .obj members =>
    if members.any (·.1 == key) then
      .obj (members.map fun (k, v) => if k == key then (k, value) else (k, v))
    else .obj (members ++ [(key, value)])
  | other => other

end Json

end DoublesLineup
