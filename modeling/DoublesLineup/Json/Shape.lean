import DoublesLineup.Json.Parse
import DoublesLineup.Decimal.Text
import DoublesLineup.Text.Escape
/-! # Reading typed documents from JSON text

A `Shape` says what a document holds: numbers of a kind, strings, booleans, optional values,
lists, maps, records with named fields, choices among names, and strings that must pass a
check. `Shape.read` reads a text against a shape in one pass from the front, and stops at the
first thing that does not fit, whether a fault of syntax or a value of the wrong kind, with
its line and column. What it reports and where follow from reading in order:

* a value of the wrong kind is read to its end before it is refused, so a string or number is
  refused at its end (a number with the byte after it);
* a record refuses a missing field at its closing brace, and a repeated field at the byte after
  the repeated key;
* a record may also be written as an array of its fields in order, which may stop early when
  the fields left out may be missing;
* a member a record does not know is skipped, its syntax checked but its numbers not
  evaluated and its nesting not limited.

What is read is returned as a JSON value holding only the members that were read, ready for a
`Decoder`.
-/

namespace DoublesLineup

/-- What a typed document holds. -/
inductive Shape where
  /-- A double: any number. -/
  | float
  /-- An integer in `[0, bound]`, called `name` in refusals. -/
  | unsigned (name : String) (bound : Nat)
  /-- A string. -/
  | string
  /-- A boolean. -/
  | bool
  /-- `null` or a value of the inner shape. -/
  | option (inner : Shape)
  /-- An array of values of one shape. -/
  | seq (item : Shape)
  /-- An object whose members all have one shape. -/
  | map (value : Shape)
  /-- A record: its name for refusals and its fields, each with its shape and whether it may
  be missing. -/
  | record (name : String) (fields : List (String × Shape × Bool))
  /-- One of the `spellings`, written as a string or as an object with the spelling as its
  only key and `null` as its value; `names` are listed in refusals. -/
  | choice (names : List String) (spellings : List String)
  /-- A string that `check` accepts (`none`) or refuses with a message; `expected` describes
  it in refusals of values of the wrong kind. -/
  | text (expected : String) (check : String → Option String)

/-- Why a text does not hold a document of a shape, and where. -/
structure ReadError where
  message : String
  position : Position

namespace ReadError

/-- A fault of syntax. -/
def ofParse (e : ParseError) : ReadError := ⟨e.fault.text, e.position⟩

/-- A fault of syntax at a position. -/
def syntax' (f : SyntaxFault) (p : Position) : ReadError := ⟨f.text, p⟩

/-- The message with its line and column. -/
def render (e : ReadError) : String :=
  e.message ++ " at line " ++ toString e.position.line ++ " column " ++ toString e.position.column

end ReadError

namespace Shape

/-- Turns a fault of syntax into a refusal. -/
def lift {α : Type} : Except ParseError α → Except ReadError α
  | .ok a => .ok a
  | .error e => .error (.ofParse e)

/-- A fault of syntax counting the byte looked at. -/
def faultPeek {α : Type} (c : Cursor) (f : SyntaxFault) : Except ReadError α :=
  .error (.syntax' f c.peekPosition)

/-- How a refusal names a number. -/
def describe : Number → String
  | .nat n => "integer `" ++ toString n ++ "`"
  | .neg n => "integer `" ++ toString n ++ "`"
  | .float x => "floating point `" ++ Decimal.Notation.data.render x ++ "`"

/-- Refuses the value at the cursor (after blanks) as not `expected`: the value is read first,
so that the refusal stands where the value ends. -/
def invalidType (c : Cursor) (expected : String) : ReadError :=
  let refuse (what : String) (p : Position) : ReadError :=
    ⟨"invalid type: " ++ what ++ ", expected " ++ expected, p⟩
  let word (rest : String) (what : String) : ReadError :=
    match JsonText.readWord c.advance rest.toList with
    | .ok c' => refuse what c'.position
    | .error e => .ofParse e
  let number (c : Cursor) (positive : Bool) : ReadError :=
    match JsonText.readUnsigned c positive with
    | .ok (n, c') => refuse (describe n) c'.peekPosition
    | .error e => .ofParse e
  match c.peek with
  | some 'n' => word "ull" "null"
  | some 't' => word "rue" "boolean `true`"
  | some 'f' => word "alse" "boolean `false`"
  | some '-' => number c.advance false
  | some '"' =>
    match JsonText.readString (c.rest.length + 1) c.advance [] with
    | .ok (s, c') => refuse ("string " ++ Text.quoted s) c'.position
    | .error e => .ofParse e
  | some '[' => refuse "sequence" c.peekPosition
  | some '{' => refuse "map" c.peekPosition
  | some ch => if ch.isDigit then number c true else .syntax' .expectedSomeValue c.peekPosition
  | none => .syntax' .eofWhileParsingValue c.peekPosition

/-- Skips the digits of an integer that nobody reads and what follows it, the sign already
read. -/
def skipNumber (c : Cursor) : Except ReadError Cursor := do
  let c ← match c.peek with
    | some '0' =>
      let c := c.advance
      match c.peek with
      | some d => if d.isDigit then faultPeek c .invalidNumber else pure c
      | none => pure c
    | some d =>
      if d.isDigit then pure (JsonText.skipDigits c.advance)
      else faultPeek c .invalidNumber
    | none => .error (.syntax' .invalidNumber c.position)
  let exponent (c : Cursor) : Except ReadError Cursor :=
    let c := c.advance
    let c := match c.peek with
      | some '+' | some '-' => c.advance
      | _ => c
    match c.peek with
    | some d =>
      if d.isDigit then pure (JsonText.skipDigits c.advance)
      else faultPeek c .invalidNumber
    | none => .error (.syntax' .invalidNumber c.position)
  match c.peek with
  | some '.' =>
    let c := c.advance
    match c.peek with
    | some d =>
      if !d.isDigit then faultPeek c .invalidNumber
      else
        let c := JsonText.skipDigits c
        match c.peek with
        | some 'e' | some 'E' => exponent c
        | _ => pure c
    | none => faultPeek c .invalidNumber
  | some 'e' | some 'E' => exponent c
  | _ => pure c

/-- Skips the rest of a string that nobody reads, the opening quote already read: escapes are
checked for their form only. -/
def skipString : Nat → Cursor → Except ReadError Cursor
  | 0, c => .error (.syntax' .eofWhileParsingString c.position)
  | fuel + 1, c =>
    match c.peek with
    | none => .error (.syntax' .eofWhileParsingString c.position)
    | some '"' => pure c.advance
    | some '\\' =>
      let c := c.advance
      match c.peek with
      | none => .error (.syntax' .eofWhileParsingString c.position)
      | some 'u' =>
        match JsonText.readHex4 c.advance with
        | .ok (_, c) => skipString fuel c
        | .error e => .error (.ofParse e)
      | some e =>
        if e = '"' ∨ e = '\\' ∨ e = '/' ∨ e = 'b' ∨ e = 'f' ∨ e = 'n' ∨ e = 'r' ∨ e = 't' then
          skipString fuel c.advance
        else faultPeek c .invalidEscape
    | some ch =>
      if ch.toNat < 32 then faultPeek c .controlCharacterWhileParsingString
      else skipString fuel c.advance

/-- The key and colon of a member of an object being skipped. -/
def skipKey (c : Cursor) : Except ReadError Cursor := do
  let c := c.skipBlanks
  let c ← match c.peek with
    | some '"' => skipString (c.rest.length + 1) c.advance
    | some _ => faultPeek c .keyMustBeAString
    | none => faultPeek c .eofWhileParsingObject
  let c := c.skipBlanks
  match c.peek with
  | some ':' => pure c.advance
  | some _ => faultPeek c .expectedColon
  | none => faultPeek c .eofWhileParsingObject

/-- The fault of a missing end of the innermost open array (`[`) or object. -/
def eofIn (frame : Char) : SyntaxFault :=
  if frame = '[' then .eofWhileParsingList else .eofWhileParsingObject

mutual

/-- Skips one value; `frames` holds the arrays and objects it is inside, innermost first. -/
def skipValue (fuel : Nat) (frames : List Char) (c : Cursor) : Except ReadError Cursor :=
  match fuel with
  | 0 => faultPeek c .recursionLimitExceeded
  | fuel + 1 =>
    let c := c.skipBlanks
    let after (r : Except ReadError Cursor) : Except ReadError Cursor :=
      match r with
      | .ok c => closeFrames fuel frames true c
      | .error e => .error e
    match c.peek with
    | none => faultPeek c .eofWhileParsingValue
    | some 'n' => after (lift (JsonText.readWord c.advance "ull".toList))
    | some 't' => after (lift (JsonText.readWord c.advance "rue".toList))
    | some 'f' => after (lift (JsonText.readWord c.advance "alse".toList))
    | some '-' => after (skipNumber c.advance)
    | some '"' => after (skipString (c.rest.length + 1) c.advance)
    | some '[' => closeFrames fuel ('[' :: frames) false c.advance
    | some '\x7b' => closeFrames fuel ('\x7b' :: frames) false c.advance
    | some ch => if ch.isDigit then after (skipNumber c) else faultPeek c .expectedSomeValue

/-- After a value inside `frames` (`more`) or after opening one (not `more`): closes what ends
here and moves to the next value, if any. -/
def closeFrames (fuel : Nat) (frames : List Char) (more : Bool) (c : Cursor) :
    Except ReadError Cursor :=
  match fuel with
  | 0 => faultPeek c .recursionLimitExceeded
  | fuel + 1 =>
    match frames with
    | [] => pure c
    | frame :: outer =>
      let c := c.skipBlanks
      let next (c : Cursor) : Except ReadError Cursor :=
        if frame = '[' then skipValue fuel frames c
        else
          match skipKey c with
          | .ok c => skipValue fuel frames c
          | .error e => .error e
      match c.peek with
      | none => faultPeek c (eofIn frame)
      | some ch =>
        if ch = ',' ∧ more then next c.advance
        else if (ch = ']' ∧ frame = '[') ∨ (ch = '\x7d' ∧ frame = '\x7b') then
          closeFrames fuel outer true c.advance
        else if more then
          faultPeek c (if frame = '[' then .expectedListCommaOrEnd else .expectedObjectCommaOrEnd)
        else next c

end

/-- The next key of an object, or `none` at its closing brace (not read); `first` tells that
no member came before. -/
def nextKey (c : Cursor) (first : Bool) : Except ReadError (Option String × Cursor) := do
  let c := c.skipBlanks
  let c ← match c.peek with
    | some '\x7d' => return (none, c)
    | some ',' => if first then pure c else pure c.advance.skipBlanks
    | some _ => if first then pure c else faultPeek c .expectedObjectCommaOrEnd
    | none => faultPeek c .eofWhileParsingObject
  match c.peek with
  | some '"' =>
    let (key, c) ← lift (JsonText.readString (c.rest.length + 1) c.advance [])
    pure (some key, c)
  | some '\x7d' => faultPeek c .trailingComma
  | some _ => faultPeek c .keyMustBeAString
  | none => faultPeek c .eofWhileParsingValue

/-- The colon after a key. -/
def colon (c : Cursor) : Except ReadError Cursor :=
  let c := c.skipBlanks
  match c.peek with
  | some ':' => pure c.advance
  | some _ => faultPeek c .expectedColon
  | none => faultPeek c .eofWhileParsingObject

/-- Whether another item follows in an array, the cursor then at it; at the closing bracket
(not read), `false`. -/
def nextItem (c : Cursor) (first : Bool) : Except ReadError (Bool × Cursor) :=
  let c := c.skipBlanks
  match c.peek with
  | some ']' => pure (false, c)
  | some ',' =>
    if first then pure (true, c)
    else
      let c := c.advance.skipBlanks
      match c.peek with
      | some ']' => faultPeek c .trailingComma
      | some _ => pure (true, c)
      | none => faultPeek c .eofWhileParsingValue
  | some _ => if first then pure (true, c) else faultPeek c .expectedListCommaOrEnd
  | none => faultPeek c .eofWhileParsingList

/-- The end of an array whose items have all been read. -/
def endItems (c : Cursor) : Except ReadError Cursor :=
  let c := c.skipBlanks
  match c.peek with
  | some ']' => pure c.advance
  | some ',' =>
    let c := c.advance.skipBlanks
    match c.peek with
    | some ']' => faultPeek c .trailingComma
    | _ => faultPeek c .trailingCharacters
  | some _ => faultPeek c .trailingCharacters
  | none => faultPeek c .eofWhileParsingList

/-- The value at the cursor, after blanks; `none` at the end of the text. -/
def peekValue (c : Cursor) : Cursor × Option Char :=
  let c := c.skipBlanks
  (c, c.peek)

/-- The refusal of an unknown name. -/
def unknownVariant (s : String) (names : List String) : String :=
  let quoted := names.map fun n => "`" ++ n ++ "`"
  let expected := match quoted with
    | [] => "there are no variants"
    | [a] => "expected " ++ a
    | [a, b] => "expected " ++ a ++ " or " ++ b
    | _ => "expected one of " ++ ", ".intercalate quoted
  "unknown variant `" ++ s ++ "`, " ++ expected

/-- A name of a choice, written as a string whose opening quote is at the cursor. -/
def choiceName (names spellings : List String) (c : Cursor) : Except ReadError (String × Cursor) := do
  let (s, c') ← lift (JsonText.readString (c.rest.length + 1) c.advance [])
  if spellings.contains s then pure (s, c')
  else .error ⟨unknownVariant s names, c'.position⟩

mutual

/-- Reads a value of a shape. -/
def scan (fuel : Nat) (shape : Shape) (c : Cursor) : Except ReadError (Json × Cursor) :=
  match fuel with
  | 0 => faultPeek c .recursionLimitExceeded
  | fuel + 1 =>
    let (c, next) := peekValue c
    match next with
    | none => faultPeek c .eofWhileParsingValue
    | some ch =>
      match shape with
      | .float =>
        if ch = '-' then (lift (JsonText.readUnsigned c.advance false)).map fun (n, c) => (.num n, c)
        else if ch.isDigit then (lift (JsonText.readUnsigned c true)).map fun (n, c) => (.num n, c)
        else .error (invalidType c "f64")
      | .unsigned name bound =>
        let check (r : Except ReadError (Number × Cursor)) : Except ReadError (Json × Cursor) := do
          let (n, c') ← r
          let refuse (what : String) : Except ReadError (Json × Cursor) :=
            .error ⟨what ++ ", expected " ++ name, c'.peekPosition⟩
          match n with
          | .nat k =>
            if k ≤ bound then pure (.num n, c') else refuse ("invalid value: " ++ describe n)
          | .neg _ => refuse ("invalid value: " ++ describe n)
          | .float _ => refuse ("invalid type: " ++ describe n)
        if ch = '-' then check (lift (JsonText.readUnsigned c.advance false))
        else if ch.isDigit then check (lift (JsonText.readUnsigned c true))
        else .error (invalidType c name)
      | .string =>
        if ch = '"' then
          (lift (JsonText.readString (c.rest.length + 1) c.advance [])).map fun (s, c) => (.str s, c)
        else .error (invalidType c "a string")
      | .bool =>
        if ch = 't' then (lift (JsonText.readWord c.advance "rue".toList)).map fun c => (.bool true, c)
        else if ch = 'f' then
          (lift (JsonText.readWord c.advance "alse".toList)).map fun c => (.bool false, c)
        else .error (invalidType c "a boolean")
      | .option inner =>
        if ch = 'n' then (lift (JsonText.readWord c.advance "ull".toList)).map fun c => (.null, c)
        else scan fuel inner c
      | .seq item =>
        if ch = '[' then scanItems fuel item c.advance [] true
        else .error (invalidType c "a sequence")
      | .map value =>
        if ch = '\x7b' then scanEntries fuel value c.advance [] true
        else .error (invalidType c "a map")
      | .record name fields =>
        if ch = '\x7b' then scanMembers fuel fields c.advance [] true
        else if ch = '[' then scanFields fuel name fields.length fields 0 c.advance [] true
        else .error (invalidType c ("struct " ++ name))
      | .choice names spellings =>
        if ch = '"' then (choiceName names spellings c).map fun (s, c) => (.str s, c)
        else if ch = '\x7b' then do
          let (c, key) := peekValue c.advance
          let (s, c) ← match key with
            | some '"' => choiceName names spellings c
            | some '\x7d' => faultPeek c .expectedSomeValue
            | some _ => faultPeek c .keyMustBeAString
            | none => faultPeek c .eofWhileParsingValue
          let c ← colon c
          let (c, unit) := peekValue c
          let c ← match unit with
            | some 'n' => lift (JsonText.readWord c.advance "ull".toList)
            | some _ => .error (invalidType c "unit")
            | none => faultPeek c .eofWhileParsingValue
          let (c, close) := peekValue c
          match close with
          | some '\x7d' => pure (.obj [(s, .null)], c.advance)
          | some _ => faultPeek c .expectedSomeValue
          | none => faultPeek c .eofWhileParsingObject
        else faultPeek c .expectedSomeValue
      | .text expected check =>
        if ch = '"' then do
          let (s, c') ← lift (JsonText.readString (c.rest.length + 1) c.advance [])
          match check s with
          | none => pure (.str s, c')
          | some message => .error ⟨message, c'.position⟩
        else .error (invalidType c expected)

/-- Reads the items of an array, its opening bracket read. -/
def scanItems (fuel : Nat) (item : Shape) (c : Cursor) (acc : List Json) (first : Bool) :
    Except ReadError (Json × Cursor) :=
  match fuel with
  | 0 => faultPeek c .recursionLimitExceeded
  | fuel + 1 => do
    let (more, c) ← nextItem c first
    if more then
      let (j, c) ← scan fuel item c
      scanItems fuel item c (j :: acc) false
    else pure (.arr acc.reverse, c.advance)

/-- Reads the members of a map, its opening brace read. -/
def scanEntries (fuel : Nat) (value : Shape) (c : Cursor) (acc : List (String × Json))
    (first : Bool) : Except ReadError (Json × Cursor) :=
  match fuel with
  | 0 => faultPeek c .recursionLimitExceeded
  | fuel + 1 => do
    match ← nextKey c first with
    | (none, c) => pure (.obj acc.reverse, c.advance)
    | (some key, c) =>
      let c ← colon c
      let (j, c) ← scan fuel value c
      scanEntries fuel value c ((key, j) :: acc) false

/-- Reads the members of a record written as an object, its opening brace read. -/
def scanMembers (fuel : Nat) (fields : List (String × Shape × Bool)) (c : Cursor)
    (acc : List (String × Json)) (first : Bool) : Except ReadError (Json × Cursor) :=
  match fuel with
  | 0 => faultPeek c .recursionLimitExceeded
  | fuel + 1 => do
    match ← nextKey c first with
    | (none, c) =>
      match fields.find? fun (name, _, optional) => !optional && !acc.any (·.1 == name) with
      | some (name, _, _) => .error ⟨"missing field `" ++ name ++ "`", c.peekPosition⟩
      | none => pure (.obj acc.reverse, c.advance)
    | (some key, c) =>
      match fields.find? (·.1 == key) with
      | some (_, shape, _) =>
        if acc.any (·.1 == key) then
          .error ⟨"duplicate field `" ++ key ++ "`", c.skipBlanks.peekPosition⟩
        else
          let c ← colon c
          let (j, c) ← scan fuel shape c
          scanMembers fuel fields c ((key, j) :: acc) false
      | none =>
        let c ← colon c
        let c ← skipValue fuel [] c
        scanMembers fuel fields c acc false

/-- Reads the fields of a record written as an array, its opening bracket read: `total`
fields, of which `rest` are still to read, the next at `index`. -/
def scanFields (fuel : Nat) (name : String) (total : Nat) (rest : List (String × Shape × Bool))
    (index : Nat) (c : Cursor) (acc : List Json) (first : Bool) : Except ReadError (Json × Cursor) :=
  match fuel with
  | 0 => faultPeek c .recursionLimitExceeded
  | fuel + 1 =>
    match rest with
    | [] => do
      let c ← endItems c
      pure (.arr acc.reverse, c)
    | (_, shape, optional) :: more => do
      let (present, c) ← nextItem c first
      if present then
        let (j, c) ← scan fuel shape c
        scanFields fuel name total more (index + 1) c (j :: acc) false
      else if optional then scanFields fuel name total more (index + 1) c acc first
      else
        .error ⟨"invalid length " ++ toString index ++ ", expected struct " ++ name ++ " with "
          ++ toString total ++ " elements", c.peekPosition⟩

end

/-- Reads a whole text as a document of a shape; only blanks may follow it. -/
def read (shape : Shape) (text : String) : Except ReadError Json := do
  let (j, c) ← scan (8 * (text.length + 8)) shape (Cursor.start text)
  let c := c.skipBlanks
  match c.peek with
  | some _ => faultPeek c .trailingCharacters
  | none => pure j

end Shape

end DoublesLineup
