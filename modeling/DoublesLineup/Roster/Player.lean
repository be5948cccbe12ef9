/-! # Players, genders and match types

A player is known by an identifier. Identifiers compare by their characters, which is the
order of their UTF-8 bytes, so a pair can be kept with its smaller player first.

A doubles game has a *match type*: mixed, women's or men's. The genders of two partners
decide which types they may play (`MatchType.admits`), and, when both are known, the type
their pairing makes (`MatchType.ofGenders`).
-/

namespace DoublesLineup

/-- A player's identifier. -/
abbrev PlayerId := String

/-- The gender of a player, as far as the match rules need it. -/
inductive Gender where
  /-- Plays women's and mixed games. -/
  | female
  /-- Plays men's and mixed games. -/
  | male
  deriving Repr, DecidableEq, BEq, Inhabited

/-- The category of a doubles game, which also decides who may play it. -/
inductive MatchType where
  /-- One woman and one man on each side. -/
  | mixed
  /-- Two women on each side. -/
  | female
  /-- Two men on each side. -/
  | male
  deriving Repr, DecidableEq, BEq, Inhabited

/-- Lower-cases the letters A to Z and keeps every other character. The spellings accepted
below are ASCII words, and no character outside ASCII lower-cases to an ASCII letter of those
words alone, so this decides acceptance exactly as a full Unicode lower-casing would. -/
def asciiLower (s : String) : String :=
  s.map Char.toLower

namespace Gender

/-- The lower-case name of a gender. -/
def name : Gender → String
  | .female => "female"
  | .male => "male"

/-- Reads a gender, ignoring case: `f` or `female`, `m` or `male`. -/
def parse (s : String) : Except String Gender :=
  match asciiLower s with
  | "f" | "female" => .ok .female
  | "m" | "male" => .ok .male
  | _ => .error s!"unsupported gender '{s}'"

end Gender

namespace MatchType

/-- The lower-case name of a match type. -/
def name : MatchType → String
  | .mixed => "mixed"
  | .female => "female"
  | .male => "male"

/-- The three match types, in their order of preference among equals. -/
def all : List MatchType := [.mixed, .female, .male]

/-- A rank that orders match types as `all` lists them. -/
def rank : MatchType → Nat
  | .mixed => 0
  | .female => 1
  | .male => 2

/-- Reads a match type, ignoring case: `mixed`, `female` or `womens`, `male` or `mens`. -/
def parse (s : String) : Except String MatchType :=
  match asciiLower s with
  | "mixed" => .ok .mixed
  | "female" | "womens" => .ok .female
  | "male" | "mens" => .ok .male
  | _ => .error s!"unsupported match type '{s}'"

/-- The match type two partners make when both genders are known. -/
def ofGenders : Option Gender → Option Gender → Option MatchType
  | some .female, some .female => some .female
  | some .male, some .male => some .male
  | some _, some _ => some .mixed
  | _, _ => none

/-- Whether two partners may play a game of this type. A known composition must be this
type; otherwise a mixed game admits anyone, and a single-gender game admits anyone not known
to be of the other gender. -/
def admits (t : MatchType) (g₁ g₂ : Option Gender) : Bool :=
  match ofGenders g₁ g₂ with
  | some composition => composition == t
  | none =>
    match t with
    | .mixed => true
    | .female => !(g₁ == some .male || g₂ == some .male)
    | .male => !(g₁ == some .female || g₂ == some .female)

end MatchType

end DoublesLineup
