import DoublesLineup.Json.Value
import DoublesLineup.Decimal.Text
/-! # Writing JSON

Two layouts of one printer: compact, with no blank anywhere, and indented, with two spaces per
level, one member or item per line and `": "` after a key. Strings escape the quote, the
backslash and the control characters below U+0020 (the usual short escapes where there is
one, `\u00xx` with lower-case hex otherwise); all other characters are written as they are.
Doubles take their shortest form with a point or an exponent (`Decimal.Notation.data`), so a
reader tells them from integers; a double that is not finite is written `null`.
-/

namespace DoublesLineup

/-- The text of a number. -/
def Number.render : Number → String
  | .nat n => toString n
  | .neg n => toString n
  | .float x => if x.isFinite then Decimal.Notation.data.render x else "null"

namespace Json

/-- The lower-case hexadecimal digit of a number below 16. -/
def hexDigit (n : Nat) : Char :=
  if n < 10 then Char.ofNat (48 + n) else Char.ofNat (87 + n)

/-- The escaped form of one character inside a string. -/
def escapeChar (c : Char) : String :=
  match c with
  | '"' => "\\\""
  | '\\' => "\\\\"
  | '\n' => "\\n"
  | '\r' => "\\r"
  | '\t' => "\\t"
  | '\x08' => "\\b"
  | '\x0c' => "\\f"
  | c =>
    if c.toNat < 32 then
      String.ofList ['\\', 'u', '0', '0', hexDigit (c.toNat / 16), hexDigit (c.toNat % 16)]
    else c.toString

/-- A string in quotes, escaped. -/
def quote (s : String) : String :=
  "\"" ++ String.join (s.toList.map escapeChar) ++ "\""

/-- The compact text of a value. -/
def render : Json → String
  | .null => "null"
  | .bool b => if b then "true" else "false"
  | .num n => n.render
  | .str s => quote s
  | .arr items => "[" ++ ",".intercalate (items.attach.map fun ⟨x, _⟩ => render x) ++ "]"
  | .obj members =>
    "\x7b" ++ ",".intercalate (members.attach.map fun ⟨(k, v), _⟩ => quote k ++ ":" ++ render v)
      ++ "\x7d"
termination_by j => sizeOf j
decreasing_by
  all_goals simp_wf
  · have := List.sizeOf_lt_of_mem ‹_›; omega
  · have := List.sizeOf_lt_of_mem ‹_›; simp at this; omega

/-- `n` levels of two-space indentation after a line break. -/
def lineBreak (n : Nat) : String :=
  "\n" ++ String.ofList (List.replicate (2 * n) ' ')

/-- The indented text of a value whose first line stands at `depth` levels. -/
def renderIndented (depth : Nat) : Json → String
  | .arr [] => "[]"
  | .obj [] => "\x7b\x7d"
  | .arr items =>
    "[" ++ lineBreak (depth + 1) ++ ("," ++ lineBreak (depth + 1)).intercalate
      (items.attach.map fun ⟨x, _⟩ => renderIndented (depth + 1) x) ++ lineBreak depth ++ "]"
  | .obj members =>
    "\x7b" ++ lineBreak (depth + 1) ++ ("," ++ lineBreak (depth + 1)).intercalate
      (members.attach.map fun ⟨(k, v), _⟩ => quote k ++ ": " ++ renderIndented (depth + 1) v)
      ++ lineBreak depth ++ "\x7d"
  | j => render j
termination_by j => sizeOf j
decreasing_by
  all_goals simp_wf
  · have := List.sizeOf_lt_of_mem ‹_›; omega
  · have := List.sizeOf_lt_of_mem ‹_›; simp at this; omega

end Json

end DoublesLineup
