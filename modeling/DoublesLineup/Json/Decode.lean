import DoublesLineup.Json.Print
/-! # Reading typed documents from JSON values

Decoders turn a JSON value into a value of this library, refusing what the document format
refuses and saying why. The rules are those of the documents this library exchanges:

* a double accepts any number; an unsigned integer accepts only an integer number within its
  range, never `2.0`;
* an optional value is absent when the member is missing or `null`;
* a record is an object (members it does not know are ignored; of two members with one name
  the later counts) or an array holding the fields in their order; a missing field takes its
  default, or is refused when it has none;
* a choice among names (an enumeration) accepts one of its spellings, written as a string or
  as an object with that name as its only key and `null` as its value.

A refusal carries the path of the value that caused it, so that a reader of the text can tell
where it lies.
-/

namespace DoublesLineup

/-- One step from a value to a part of it. -/
inductive PathStep where
  /-- The member of an object with this key. -/
  | key (name : String)
  /-- The item of an array at this position. -/
  | index (i : Nat)
  deriving Repr, DecidableEq, BEq

/-- Why a document could not be read, and where. -/
structure DecodeError where
  message : String
  /-- The steps from the document's root to the value refused, outermost first. -/
  path : List PathStep := []
  deriving Inhabited

/-- The outcome of reading a typed value. -/
abbrev Decoded (α : Type) := Except DecodeError α

/-- A reader of typed values from JSON values. -/
abbrev Decoder (α : Type) := Json → Decoded α

namespace Decoder

/-- Adds a step in front of the path of a refusal. -/
def within {α : Type} (step : PathStep) (r : Decoded α) : Decoded α :=
  match r with
  | .ok a => .ok a
  | .error e => .error { e with path := step :: e.path }

/-- How a refusal names a value of the wrong kind. -/
def unexpected : Json → String
  | .null => "null"
  | .bool b => s!"boolean `{b}`"
  | .num (.nat n) => s!"integer `{n}`"
  | .num (.neg n) => s!"integer `{n}`"
  | .num (.float x) => "floating point `" ++ Decimal.Notation.data.render x ++ "`"
  | .str s => "string " ++ Json.quote s
  | .arr _ => "sequence"
  | .obj _ => "map"

/-- A refusal of a value of the wrong kind. -/
def invalidType {α : Type} (j : Json) (expected : String) : Decoded α :=
  .error ⟨s!"invalid type: {unexpected j}, expected {expected}", []⟩

/-- Any number, as a double. -/
def float : Decoder Float
  | .num n => .ok n.toFloat
  | j => invalidType j "f64"

/-- An integer in `[0, bound]`, named `name` in refusals. -/
def unsigned (name : String) (bound : Nat) : Decoder Nat
  | .num (.nat n) =>
    if n ≤ bound then .ok n else .error ⟨s!"invalid value: integer `{n}`, expected {name}", []⟩
  | .num (.neg n) => .error ⟨s!"invalid value: integer `{n}`, expected {name}", []⟩
  | j => invalidType j name

/-- An integer of 16 bits. -/
def u16 : Decoder Nat := unsigned "u16" (Nat.pow 2 16 - 1)

/-- An integer of 64 bits, as counts and sizes are. -/
def usize : Decoder Nat := unsigned "usize" (Nat.pow 2 64 - 1)

/-- An integer of 64 bits. -/
def u64 : Decoder Nat := unsigned "u64" (Nat.pow 2 64 - 1)

/-- A string. -/
def string : Decoder String
  | .str s => .ok s
  | j => invalidType j "a string"

/-- A boolean. -/
def bool : Decoder Bool
  | .bool b => .ok b
  | j => invalidType j "a boolean"

/-- An optional value: `null` is absent. -/
def option {α : Type} (d : Decoder α) : Decoder (Option α)
  | .null => .ok none
  | j => some <$> d j

/-- An array of values. -/
def list {α : Type} (d : Decoder α) : Decoder (List α)
  | .arr items => items.zipIdx.mapM fun (j, i) => within (.index i) (d j)
  | j => invalidType j "a sequence"

/-- An array of exactly `n` values. -/
def array {α : Type} (n : Nat) (d : Decoder α) : Decoder (List α)
  | .arr items =>
    if items.length = n then items.zipIdx.mapM fun (j, i) => within (.index i) (d j)
    else .error ⟨s!"invalid length {items.length}, expected an array of length {n}", []⟩
  | j => invalidType j s!"an array of length {n}"

/-- An object read as a map from its keys, in document order. -/
def map {α : Type} (d : Decoder α) : Decoder (List (String × α))
  | .obj members => members.mapM fun (k, j) => do pure (k, ← within (.key k) (d j))
  | j => invalidType j "a map"

/-- The refusal of an unknown name. -/
def unknownVariant (s : String) (names : List String) : DecodeError :=
  let quoted := names.map fun n => "`" ++ n ++ "`"
  let expected := match quoted with
    | [] => "there are no variants"
    | [a] => s!"expected {a}"
    | [a, b] => s!"expected {a} or {b}"
    | _ => "expected one of " ++ ", ".intercalate quoted
  ⟨s!"unknown variant `{s}`, {expected}", []⟩

/-- One of a set of names: `spellings` maps each accepted spelling to its value, and `names`
are the spellings a refusal lists. -/
def variant {α : Type} (spellings : List (String × α)) (names : List String) : Decoder α
  | .str s =>
    match spellings.find? (·.1 == s) with
    | some (_, a) => .ok a
    | none => .error (unknownVariant s names)
  | .obj [(s, .null)] =>
    match spellings.find? (·.1 == s) with
    | some (_, a) => .ok a
    | none => .error (unknownVariant s names)
  | j => invalidType j "string or map"

end Decoder

/-- The fields of a record as read: member names with their values. -/
structure Record where
  /-- The record's name, for refusals. -/
  name : String
  /-- The members, the later of two with one name counting. -/
  members : List (String × Json)

namespace Record

/-- Reads a record from an object, or from an array holding `fields` in order. -/
def read (name : String) (fields : List String) : Json → Decoded Record
  | .obj members => .ok ⟨name, members⟩
  | .arr items =>
    if items.length ≤ fields.length then .ok ⟨name, fields.zip items⟩
    else .error ⟨s!"invalid length {items.length}, expected struct {name} with {fields.length} elements", []⟩
  | j => Decoder.invalidType j s!"struct {name}"

/-- The value of a field, if present. -/
def get? (r : Record) (field : String) : Option Json :=
  (r.members.reverse.find? (·.1 == field)).map (·.2)

/-- A field that must be present. -/
def need {α : Type} (r : Record) (field : String) (d : Decoder α) : Decoded α :=
  match r.get? field with
  | some j => Decoder.within (.key field) (d j)
  | none => .error ⟨s!"missing field `{field}`", []⟩

/-- A field with a default for when it is missing. -/
def withDefault {α : Type} (r : Record) (field : String) (d : Decoder α) (default : α) :
    Decoded α :=
  match r.get? field with
  | some j => Decoder.within (.key field) (d j)
  | none => .ok default

/-- An optional field: missing or `null` is absent. -/
def optional {α : Type} (r : Record) (field : String) (d : Decoder α) : Decoded (Option α) :=
  r.withDefault field (Decoder.option d) none

end Record

end DoublesLineup
