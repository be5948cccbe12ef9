import DoublesLineup.Json.Value
/-! # Reading JSON

A reader for JSON text that reports the first fault with its line and column. The reader
looks at most one byte ahead, and a fault's position counts every byte it has looked at:
lines from 1, columns as the bytes after the last line break. Numbers are read into the class
they are written in (`Number`). An integer beyond 64 bits and every number with a fraction or
an exponent becomes a double: its first nineteen or twenty significant digits, as many as fit
in 64 bits, are rounded to a double and then multiplied or divided once by a power of ten.
Nesting deeper than 127 arrays or objects is refused.
-/

namespace DoublesLineup

/-- Why a JSON text could not be read. -/
inductive SyntaxFault where
  /-- The text ended inside an array. -/
  | eofWhileParsingList
  /-- The text ended inside an object. -/
  | eofWhileParsingObject
  /-- The text ended inside a string. -/
  | eofWhileParsingString
  /-- The text ended where a value was due. -/
  | eofWhileParsingValue
  /-- A member name was not followed by a colon. -/
  | expectedColon
  /-- An array item was followed by neither a comma nor the closing bracket. -/
  | expectedListCommaOrEnd
  /-- A member was followed by neither a comma nor the closing brace. -/
  | expectedObjectCommaOrEnd
  /-- A literal (`null`, `true`, `false`) was misspelled. -/
  | expectedSomeIdent
  /-- No value starts at this character. -/
  | expectedSomeValue
  /-- A backslash was followed by a character that escapes nothing. -/
  | invalidEscape
  /-- A number was malformed. -/
  | invalidNumber
  /-- A number is too large for a double. -/
  | numberOutOfRange
  /-- An escape names no Unicode scalar value. -/
  | invalidUnicodeCodePoint
  /-- A string holds a raw control character. -/
  | controlCharacterWhileParsingString
  /-- A member name is not a string. -/
  | keyMustBeAString
  /-- A leading surrogate escape is not followed by a trailing one. -/
  | loneLeadingSurrogateInHexEscape
  /-- A comma stands before a closing bracket or brace. -/
  | trailingComma
  /-- Something other than blanks follows the value. -/
  | trailingCharacters
  /-- A `\u` escape has fewer than four hexadecimal digits. -/
  | unexpectedEndOfHexEscape
  /-- Arrays and objects are nested too deeply. -/
  | recursionLimitExceeded
  deriving Repr, DecidableEq, BEq

/-- The wording of a syntax fault. -/
def SyntaxFault.text : SyntaxFault → String
  | .eofWhileParsingList => "EOF while parsing a list"
  | .eofWhileParsingObject => "EOF while parsing an object"
  | .eofWhileParsingString => "EOF while parsing a string"
  | .eofWhileParsingValue => "EOF while parsing a value"
  | .expectedColon => "expected `:`"
  | .expectedListCommaOrEnd => "expected `,` or `]`"
  | .expectedObjectCommaOrEnd => "expected `,` or `\x7d`"
  | .expectedSomeIdent => "expected ident"
  | .expectedSomeValue => "expected value"
  | .invalidEscape => "invalid escape"
  | .invalidNumber => "invalid number"
  | .numberOutOfRange => "number out of range"
  | .invalidUnicodeCodePoint => "invalid unicode code point"
  | .controlCharacterWhileParsingString =>
    "control character (\\u0000-\\u001F) found while parsing a string"
  | .keyMustBeAString => "key must be a string"
  | .loneLeadingSurrogateInHexEscape => "lone leading surrogate in hex escape"
  | .trailingComma => "trailing comma"
  | .trailingCharacters => "trailing characters"
  | .unexpectedEndOfHexEscape => "unexpected end of hex escape"
  | .recursionLimitExceeded => "recursion limit exceeded"

/-- A line and a column of a text: lines count from 1, columns are bytes after the line's
start. -/
structure Position where
  line : Nat
  column : Nat
  deriving Repr, DecidableEq, BEq

/-- A fault and where it was found. -/
structure ParseError where
  fault : SyntaxFault
  position : Position

/-- The message of a located fault. -/
def ParseError.message (e : ParseError) : String :=
  s!"{e.fault.text} at line {e.position.line} column {e.position.column}"

/-- The text still to read and the position of what has been read. -/
structure Cursor where
  rest : List Char
  position : Position

namespace Cursor

/-- A cursor at the start of a text. -/
def start (s : String) : Cursor := ⟨s.toList, ⟨1, 0⟩⟩

/-- The next character, if any. -/
def peek (c : Cursor) : Option Char := c.rest.head?

/-- The position after one character more: a line break starts a line; any other character
adds its bytes. -/
def Position.after (p : Position) (ch : Char) : Position :=
  if ch = '\n' then ⟨p.line + 1, 0⟩ else ⟨p.line, p.column + ch.utf8Size⟩

/-- Reads one character. -/
def advance (c : Cursor) : Cursor :=
  match c.rest with
  | [] => c
  | ch :: rest => ⟨rest, Position.after c.position ch⟩

/-- The position counting the next byte as seen: the reader looks ahead one byte, which for a
character outside ASCII is only its first. -/
def peekPosition (c : Cursor) : Position :=
  match c.rest with
  | [] => c.position
  | ch :: _ => if ch = '\n' then ⟨c.position.line + 1, 0⟩ else ⟨c.position.line, c.position.column + 1⟩

/-- The position after `n` more bytes, and whether the text has that many: the bytes of a
character are counted one by one, so the position may fall inside a character. -/
def bytesAhead (c : Cursor) (n : Nat) : Position × Bool :=
  let rec go : List Char → Position → Nat → Position × Bool
    | _, p, 0 => (p, true)
    | [], p, _ => (p, false)
    | ch :: rest, p, n + 1 =>
      if ch.utf8Size ≤ n + 1 then go rest (Position.after p ch) (n + 1 - ch.utf8Size)
      else (⟨p.line, p.column + (n + 1)⟩, true)
  go c.rest c.position n

/-- Skips blanks: space, tab, line feed and carriage return. -/
def skipBlanks (c : Cursor) : Cursor :=
  let blanks := c.rest.takeWhile fun ch => ch = ' ' ∨ ch = '\t' ∨ ch = '\n' ∨ ch = '\r'
  blanks.foldl (fun cur _ => cur.advance) c

end Cursor

/-- The outcome of reading a part of a text: a value and the cursor after it, or a fault. -/
abbrev Reading (α : Type) := Except ParseError (α × Cursor)

/-- A fault at the cursor's position, counting a byte looked at. -/
def failPeek {α : Type} (c : Cursor) (f : SyntaxFault) : Except ParseError α :=
  .error ⟨f, c.peekPosition⟩

/-- A fault at the cursor's position. -/
def failAt {α : Type} (c : Cursor) (f : SyntaxFault) : Except ParseError α :=
  .error ⟨f, c.position⟩

namespace JsonText

/-- The doubles `1e0` to `1e308`. -/
def powersOfTen : Array Float := (List.range 309).toArray.map fun k => Float.ofScientific 1 false k

/-- `significand · 10 ^ exponent` as the reader computes it: the significand rounded to a
double, then one multiplication or division by a power of ten, going through `1e308` for
exponents below -308. An overflow to infinity is out of range. -/
def composeFloat (c : Cursor) (positive : Bool) (significand : Nat) (exponent : Int) :
    Except ParseError Float :=
  let f := significand.toUInt64.toFloat
  let sign (x : Float) := if positive then x else -x
  let rec go (fuel : Nat) (f : Float) (exponent : Int) : Except ParseError Float :=
    match fuel with
    | 0 => .ok (sign f)
    | fuel + 1 =>
      if exponent.natAbs ≤ 308 then
        let pow := powersOfTen.getD exponent.natAbs 1
        if exponent ≥ 0 then
          let g := f * pow
          if g.isInf then failPeek c .numberOutOfRange else .ok (sign g)
        else .ok (sign (f / pow))
      else if f == 0 then .ok (sign f)
      else if exponent ≥ 0 then failPeek c .numberOutOfRange
      else go fuel (f / 1e308) (exponent + 308)
  go 8 f exponent

/-- Whether appending `digit` to `n` passes `2 ^ 64 - 1`. -/
def overflows (n digit : Nat) : Bool := n * 10 + digit > Nat.pow 2 64 - 1

/-- The digit value of a character known to be a digit. -/
def digitOf (ch : Char) : Nat := ch.toNat - 48

/-- Skips digits. -/
def skipDigits (c : Cursor) : Cursor :=
  (c.rest.takeWhile Char.isDigit).foldl (fun cur _ => cur.advance) c

/-- Reads the exponent after `e` or `E` (not yet read) and composes the double. -/
def readExponent (c : Cursor) (positive : Bool) (significand : Nat) (start : Int) :
    Reading Float :=
  let c := c.advance
  let (positiveExp, c) := match c.peek with
    | some '+' => (true, c.advance)
    | some '-' => (false, c.advance)
    | _ => (true, c)
  match c.peek with
  | none => failAt c .eofWhileParsingValue
  | some ch =>
    if !ch.isDigit then failPeek c .invalidNumber
    else
      let digits := c.rest.takeWhile Char.isDigit
      -- the exponent is read while it fits in 31 bits; the digit that passes is read too
      let (magnitude, used, passed) := digits.foldl (fun (magnitude, used, passed) d =>
        if passed then (magnitude, used, true)
        else if magnitude * 10 + digitOf d > Nat.pow 2 31 - 1 then (magnitude, used + 1, true)
        else (magnitude * 10 + digitOf d, used + 1, false)) (0, 0, false)
      if passed then
        if significand ≠ 0 && positiveExp then
          failAt ((List.range used).foldl (fun cur _ => cur.advance) c) .numberOutOfRange
        else .ok (if positive then 0.0 else -0.0, skipDigits c)
      else
        let c' := skipDigits c
        let final : Int := if positiveExp then start + magnitude else start - magnitude
        let final := max (-(Nat.pow 2 31 : Int)) (min ((Nat.pow 2 31 : Int) - 1) final)
        match composeFloat c' positive significand final with
        | .ok f => .ok (f, c')
        | .error e => .error e

/-- Reads the digits after a decimal point (the point not yet read). -/
def readFraction (c : Cursor) (positive : Bool) (significand : Nat) (start : Int) :
    Reading Float :=
  let c := c.advance
  let digits := c.rest.takeWhile Char.isDigit
  if digits.isEmpty then
    match c.peek with
    | some _ => failPeek c .invalidNumber
    | none => failAt c .eofWhileParsingValue
  else
    -- digits are taken while the significand fits in 64 bits; the rest are skipped
    let (sig, used, _) := digits.foldl (fun (sig, used, full) d =>
      if full || overflows sig (digitOf d) then (sig, used, true)
      else (sig * 10 + digitOf d, used + 1, false)) (significand, 0, false)
    let c' := skipDigits c
    let exponent := start - used
    match c'.peek with
    | some 'e' | some 'E' => readExponent c' positive sig exponent
    | _ =>
      match composeFloat c' positive sig exponent with
      | .ok f => .ok (f, c')
      | .error e => .error e

/-- Reads what follows an integer part `significand` of at most 64 bits. -/
def readAfterInteger (c : Cursor) (positive : Bool) (significand : Nat) : Reading Number :=
  match c.peek with
  | some '.' => (readFraction c positive significand 0).map fun (f, c) => (.float f, c)
  | some 'e' | some 'E' => (readExponent c positive significand 0).map fun (f, c) => (.float f, c)
  | _ =>
    if positive then .ok (.nat significand, c)
    else if significand = 0 || significand > Nat.pow 2 63 then
      .ok (.float (-(significand.toUInt64.toFloat)), c)
    else .ok (.neg (-(significand : Int)), c)

/-- Reads a number's digits, the sign already read. -/
def readUnsigned (c : Cursor) (positive : Bool) : Reading Number :=
  match c.peek with
  | none => failAt c .eofWhileParsingValue
  | some '0' =>
    let c := c.advance
    match c.peek with
    | some ch => if ch.isDigit then failPeek c .invalidNumber else readAfterInteger c positive 0
    | none => readAfterInteger c positive 0
  | some ch =>
    if !ch.isDigit then failPeek c .invalidNumber
    else
      let digits := c.rest.takeWhile Char.isDigit
      let (sig, used, full) := digits.foldl (fun (sig, used, full) d =>
        if full || overflows sig (digitOf d) then (sig, used, true)
        else (sig * 10 + digitOf d, used + 1, false)) (0, 0, false)
      if !full then readAfterInteger (skipDigits c) positive sig
      else
        -- too long for 64 bits: the remaining integer digits only scale the double
        let c' := skipDigits c
        let extra : Int := digits.length - used
        match c'.peek with
        | some '.' => (readFraction c' positive sig extra).map fun (f, c) => (.float f, c)
        | some 'e' | some 'E' =>
          (readExponent c' positive sig extra).map fun (f, c) => (.float f, c)
        | _ => match composeFloat c' positive sig extra with
          | .ok f => .ok (.float f, c')
          | .error e => .error e

/-- The value of a hexadecimal digit. -/
def hexValue (ch : Char) : Option Nat :=
  if '0' ≤ ch ∧ ch ≤ '9' then some (ch.toNat - 48)
  else if 'a' ≤ ch ∧ ch ≤ 'f' then some (ch.toNat - 87)
  else if 'A' ≤ ch ∧ ch ≤ 'F' then some (ch.toNat - 55)
  else none

/-- Reads the four hexadecimal digits of a `\u` escape. Four bytes are read before they are
looked at: a text that ends sooner ends inside the string, and four bytes that are not all
digits are an invalid escape, found after the fourth. -/
def readHex4 (c : Cursor) : Reading Nat :=
  let (after, enough) := c.bytesAhead 4
  if !enough then .error ⟨.eofWhileParsingString, after⟩
  else
    match (c.rest.take 4).mapM hexValue with
    | some [a, b, d, e] =>
      .ok (((a * 16 + b) * 16 + d) * 16 + e, c.advance.advance.advance.advance)
    | _ => .error ⟨.invalidEscape, after⟩

/-- Reads the rest of a string, the opening quote already read; `fuel` bounds the steps. -/
def readString (fuel : Nat) (c : Cursor) (acc : List Char) : Reading String :=
  match fuel with
  | 0 => failAt c .eofWhileParsingString
  | fuel + 1 =>
    match c.peek with
    | none => failAt c .eofWhileParsingString
    | some '"' => .ok (String.ofList acc.reverse, c.advance)
    | some '\\' =>
      let c := c.advance
      match c.peek with
      | none => failAt c .eofWhileParsingString
      | some e =>
        let escape := c
        let c := c.advance
        let simple (ch : Char) := readString fuel c (ch :: acc)
        match e with
        | '"' => simple '"'
        | '\\' => simple '\\'
        | '/' => simple '/'
        | 'b' => simple '\x08'
        | 'f' => simple '\x0c'
        | 'n' => simple '\n'
        | 'r' => simple '\r'
        | 't' => simple '\t'
        | 'u' =>
          match readHex4 c with
          | .error err => .error err
          | .ok (n, c) =>
            if 0xDC00 ≤ n ∧ n ≤ 0xDFFF then failAt c .loneLeadingSurrogateInHexEscape
            else if n < 0xD800 ∨ n > 0xDBFF then readString fuel c (Char.ofNat n :: acc)
            else
              -- a leading surrogate must be followed by an escaped trailing one
              match c.peek with
              | none => failAt c .eofWhileParsingString
              | some '\\' =>
                let c := c.advance
                match c.peek with
                | none => failAt c .eofWhileParsingString
                | some 'u' =>
                  match readHex4 c.advance with
                  | .error err => .error err
                  | .ok (n2, c) =>
                    if n2 < 0xDC00 ∨ n2 > 0xDFFF then failAt c .loneLeadingSurrogateInHexEscape
                    else
                      let code := ((n - 0xD800) * 1024 + (n2 - 0xDC00)) + 0x10000
                      readString fuel c (Char.ofNat code :: acc)
                | some _ => failPeek c .unexpectedEndOfHexEscape
              | some _ => failPeek c .unexpectedEndOfHexEscape
        | _ => failPeek escape .invalidEscape
    | some ch =>
      if ch.toNat < 32 then failPeek c .controlCharacterWhileParsingString
      else readString fuel c.advance (ch :: acc)

/-- Reads the letters of `null`, `true` or `false` after their first. -/
def readWord (c : Cursor) : List Char → Except ParseError Cursor
  | [] => .ok c
  | w :: ws =>
    match c.peek with
    | none => failAt c .eofWhileParsingValue
    | some ch => if ch = w then readWord c.advance ws else failPeek c .expectedSomeIdent

mutual

/-- Reads one value after optional blanks; `depth` counts the levels still allowed. -/
def readValue (fuel depth : Nat) (c : Cursor) : Reading Json :=
  match fuel with
  | 0 => failPeek c .recursionLimitExceeded
  | fuel + 1 =>
    let c := c.skipBlanks
    match c.peek with
    | none => failPeek c .eofWhileParsingValue
    | some 'n' => (readWord c.advance "ull".toList).map fun c => (.null, c)
    | some 't' => (readWord c.advance "rue".toList).map fun c => (.bool true, c)
    | some 'f' => (readWord c.advance "alse".toList).map fun c => (.bool false, c)
    | some '-' => (readUnsigned c.advance false).map fun (n, c) => (.num n, c)
    | some '"' => (readString (c.rest.length + 1) c.advance []).map fun (s, c) => (.str s, c)
    | some '[' =>
      if depth ≤ 1 then failPeek c .recursionLimitExceeded
      else readItems fuel (depth - 1) c.advance [] true
    | some '{' =>
      if depth ≤ 1 then failPeek c .recursionLimitExceeded
      else readMembers fuel (depth - 1) c.advance [] true
    | some ch =>
      if ch.isDigit then (readUnsigned c true).map fun (n, c) => (.num n, c)
      else failPeek c .expectedSomeValue

/-- Reads the items of an array after its opening bracket. -/
def readItems (fuel depth : Nat) (c : Cursor) (acc : List Json) (first : Bool) : Reading Json :=
  match fuel with
  | 0 => failPeek c .recursionLimitExceeded
  | fuel + 1 =>
    let c := c.skipBlanks
    match c.peek with
    | none => failPeek c .eofWhileParsingList
    | some ']' => .ok (.arr acc.reverse, c.advance)
    | some ch =>
      let next : Except ParseError Cursor :=
        if first then .ok c
        else if ch = ',' then
          let c := c.advance.skipBlanks
          match c.peek with
          | some ']' => failPeek c .trailingComma
          | some _ => .ok c
          | none => failPeek c .eofWhileParsingValue
        else failPeek c .expectedListCommaOrEnd
      match next with
      | .error e => .error e
      | .ok c =>
        match readValue fuel depth c with
        | .error e => .error e
        | .ok (v, c) => readItems fuel depth c (v :: acc) false

/-- Reads the members of an object after its opening brace. -/
def readMembers (fuel depth : Nat) (c : Cursor) (acc : List (String × Json)) (first : Bool) :
    Reading Json :=
  match fuel with
  | 0 => failPeek c .recursionLimitExceeded
  | fuel + 1 =>
    let c := c.skipBlanks
    match c.peek with
    | none => failPeek c .eofWhileParsingObject
    | some '}' => .ok (.obj acc.reverse, c.advance)
    | some ch =>
      let next : Except ParseError Cursor :=
        if first then .ok c
        else if ch = ',' then .ok c.advance.skipBlanks
        else failPeek c .expectedObjectCommaOrEnd
      match next with
      | .error e => .error e
      | .ok c =>
        match c.peek with
        | some '"' =>
          match readString (c.rest.length + 1) c.advance [] with
          | .error e => .error e
          | .ok (key, c) =>
            let c := c.skipBlanks
            match c.peek with
            | some ':' =>
              match readValue fuel depth c.advance with
              | .error e => .error e
              | .ok (v, c) => readMembers fuel depth c ((key, v) :: acc) false
            | some _ => failPeek c .expectedColon
            | none => failPeek c .eofWhileParsingObject
        | some '}' => failPeek c .trailingComma
        | some _ => failPeek c .keyMustBeAString
        | none => failPeek c .eofWhileParsingValue

end

end JsonText

namespace Json

/-- Reads a whole text as one JSON value; only blanks may follow it. -/
def parse (s : String) : Except ParseError Json :=
  let c := Cursor.start s
  match JsonText.readValue (2 * s.length + 2) 128 c with
  | .error e => .error e
  | .ok (v, c) =>
    let c := c.skipBlanks
    match c.peek with
    | some _ => failPeek c .trailingCharacters
    | none => .ok v

end Json

end DoublesLineup
