import DoublesLineup.Text.Escape
/-! # Box-drawn text tables

A table has columns, each with a least width and an alignment, and rows of cells. A cell's
text is shown line by line, and a row is as tall as its tallest cell. A column is as wide as
the longest line of its cells, and no narrower than its least width; widths count characters.

The table is framed by double lines. Rows are set apart by single rules, except that a header
row is set apart from the row after it by a double rule. A *ruled* row divides its cells by
vertical rules; an open row divides them by blanks, so that its cells read as one line. Where
a horizontal rule meets the vertical rules of the rows above and below it, it takes the
junction that joins exactly those.
-/

namespace DoublesLineup

namespace Table

/-- Where a cell's text sits within its column. -/
inductive Align where
  /-- Flush left, padded on the right. -/
  | left
  /-- Centred; an odd blank goes to the right. -/
  | centred
  /-- Flush right, padded on the left. -/
  | right
  deriving Repr, DecidableEq, Inhabited

/-- A column: its least width and the alignment of its cells. -/
structure Column where
  minWidth : Nat
  align : Align
  deriving Inhabited

/-- A row of cells. -/
structure Row where
  cells : List String
  /-- A header row is followed by a double rule. -/
  header : Bool := false
  /-- A ruled row divides its cells by vertical rules, an open row by blanks. -/
  ruled : Bool := true
  deriving Inhabited

/-- `n` copies of a character. -/
def fill (n : Nat) (c : Char) : String := String.ofList (List.replicate n c)

/-- Places `text` in a field of `width` characters; centring puts the odd blank on the
right. -/
def Align.place (a : Align) (width : Nat) (text : String) : String :=
  let extra := width - text.length
  match a with
  | .left => text ++ fill extra ' '
  | .right => fill extra ' ' ++ text
  | .centred => fill (extra / 2) ' ' ++ text ++ fill (extra - extra / 2) ' '

end Table

/-- A table: its columns and its rows, in order. -/
structure Table where
  columns : List Table.Column
  rows : List Table.Row
  deriving Inhabited

namespace Table

/-- A line of a cell as it is shown: a white-space character right after a visible one is
shown as a blank; one after white space, or at the start of the line, is shown as it is. -/
def spaced (line : String) : String :=
  let step (acc : List Char × Bool) (c : Char) : List Char × Bool :=
    if Text.isWhiteSpace c then ((if acc.2 then ' ' else c) :: acc.1, false)
    else (c :: acc.1, true)
  String.ofList (line.toList.foldl step ([], false)).1.reverse

/-- The lines of a text: the parts between line feeds, less a carriage return that ends one
before its line feed; a line feed at the very end does not start another line, so the empty
text has no lines. -/
def textLines (text : String) : List String :=
  let trimReturn (line : String) : String :=
    if line.endsWith "\r" then String.ofList line.toList.dropLast else line
  let rec go : List String → List String
    | [] => []
    | [last] => if last.isEmpty then [] else [last]
    | line :: rest => trimReturn line :: go rest
  go (text.splitOn "\n")

/-- The lines of a cell: the lines of its text, each spaced. -/
def cellLines (text : String) : List String := (textLines text).map spaced

/-- The width of a cell: its longest line. -/
def cellWidth (text : String) : Nat := (cellLines text).foldl (fun w l => max w l.length) 0

/-- The width of each column: the widest of its cells, or its least width. -/
def widths (t : Table) : List Nat :=
  t.columns.zipIdx.map fun (c, i) =>
    t.rows.foldl (fun w r => max w (cellWidth (r.cells.getD i ""))) c.minWidth

/-- One row as lines of text, as many as its tallest cell has; shorter cells are blank
below their text. -/
def rowLines (t : Table) (widths : List Nat) (r : Row) : List String :=
  let cells := t.columns.zipIdx.map fun (_, i) => cellLines (r.cells.getD i "")
  let height := cells.foldl (fun h ls => max h ls.length) 1
  (List.range height).map fun k =>
    let parts := ((t.columns.zip widths).zip cells).map fun ((c, w), ls) =>
      c.align.place w (ls.getD k "")
    "║" ++ (if r.ruled then "│" else " ").intercalate parts ++ "║"

/-- The characters of one kind of horizontal rule: its ends, its line, and its junctions
with vertical rules from above and below, from above only, and from below only. -/
structure RuleStyle where
  leftEnd : Char
  rightEnd : Char
  line : Char
  cross : Char
  up : Char
  down : Char

/-- The rule along the top of the table. -/
def topRule : RuleStyle := ⟨'╔', '╗', '═', '╪', '╧', '╤'⟩

/-- The rule along the bottom of the table. -/
def bottomRule : RuleStyle := ⟨'╚', '╝', '═', '╪', '╧', '╤'⟩

/-- The rule below a header row. -/
def doubleRule : RuleStyle := ⟨'╠', '╣', '═', '╪', '╧', '╤'⟩

/-- The rule between other rows. -/
def singleRule : RuleStyle := ⟨'╟', '╢', '─', '┼', '┴', '┬'⟩

/-- A horizontal rule between a row with vertical rules or not (`above`) and one with or
without them (`below`). -/
def rule (widths : List Nat) (s : RuleStyle) (above below : Bool) : String :=
  let junction := match above, below with
    | true, true => s.cross
    | true, false => s.up
    | false, true => s.down
    | false, false => s.line
  String.singleton s.leftEnd ++ (String.singleton junction).intercalate
    (widths.map fun w => fill w s.line) ++ String.singleton s.rightEnd

/-- The lines of the rows from `r` on, each followed by the rule below it. -/
def body (t : Table) (widths : List Nat) : Row → List Row → List String
  | r, [] => rowLines t widths r ++ [rule widths bottomRule r.ruled false]
  | r, next :: rest =>
    rowLines t widths r ++
      rule widths (if r.header then doubleRule else singleRule) r.ruled next.ruled ::
      body t widths next rest

/-- The table as lines of text. -/
def lines (t : Table) : List String :=
  let widths := t.widths
  match t.rows with
  | [] => [rule widths topRule false false, rule widths bottomRule false false]
  | r :: rest => rule widths topRule false r.ruled :: body t widths r rest

/-- The table as text, its lines joined by line breaks, with no break at the end. -/
def render (t : Table) : String := "\n".intercalate t.lines

end Table

end DoublesLineup
