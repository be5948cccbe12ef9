/-! # Universally unique identifiers

A UUID is 128 bits. It is read from 32 hexadecimal digits, either plain or in the hyphenated
groups 8-4-4-4-12, which may also be wrapped in braces or follow `urn:uuid:` (in any case);
digits may be of either case. It is written hyphenated in lower case. A text that is not a
UUID is refused with the first reason found.
-/

namespace DoublesLineup

/-- A 128-bit identifier. -/
structure Uuid where
  value : Nat
  deriving Repr, DecidableEq, BEq, Inhabited

namespace Uuid

/-- The identifier with all bits zero. -/
def nil : Uuid := ⟨0⟩

/-- The value of a hexadecimal digit. -/
def hexDigitValue (c : Char) : Option Nat :=
  if '0' ≤ c ∧ c ≤ '9' then some (c.toNat - 48)
  else if 'a' ≤ c ∧ c ≤ 'f' then some (c.toNat - 87)
  else if 'A' ≤ c ∧ c ≤ 'F' then some (c.toNat - 55)
  else none

/-- The number written by hexadecimal digits, if they all are. -/
def ofHex (cs : List Char) : Option Nat :=
  cs.foldlM (fun acc c => do pure (acc * 16 + (← hexDigitValue c))) 0

/-- The groups of a hyphenated form: 8, 4, 4, 4 and 12 digits separated by hyphens. -/
def ungroup (cs : List Char) : Option (List Char) :=
  if cs.length = 36 ∧ cs[8]? = some '-' ∧ cs[13]? = some '-' ∧ cs[18]? = some '-' ∧
      cs[23]? = some '-' then
    some (cs.take 8 ++ (cs.drop 9).take 4 ++ (cs.drop 14).take 4 ++ (cs.drop 19).take 4 ++
      cs.drop 24)
  else none

/-- Whether a text begins with the URN prefix `urn:uuid:`, in any case. -/
def hasUrnPrefix (cs : List Char) : Bool :=
  (cs.take 9).map Char.toLower == "urn:uuid:".toList

/-- The 32 digits of any accepted form. -/
def digitsOf (cs : List Char) : Option (List Char) :=
  if cs.length = 32 then some cs
  else if cs.length = 36 then ungroup cs
  else if cs.length = 38 ∧ cs.head? = some '\x7b' ∧ cs.getLast? = some '\x7d' then
    ungroup ((cs.drop 1).take 36)
  else if cs.length = 45 ∧ hasUrnPrefix cs then ungroup (cs.drop 9)
  else none

/-- Reads a UUID in any of its accepted forms. -/
def parse (s : String) : Option Uuid :=
  (digitsOf s.toList).bind fun ds => (ofHex ds).map Uuid.mk

/-- The positions of the hyphens of a text. -/
def hyphens (cs : List Char) : List Nat :=
  cs.zipIdx.filterMap fun (c, i) => if c = '-' then some i else none

/-- Each character with its byte offset from the start. -/
def byteOffsets (cs : List Char) : List (Char × Nat) :=
  (cs.foldl (fun (acc : List (Char × Nat) × Nat) c => (acc.1 ++ [(c, acc.2)], acc.2 + c.utf8Size))
    ([], 0)).1

/-- The fault of the characters `body`, found at byte offset `skipped` of a text of `total`
bytes: the first character that is neither a hexadecimal digit nor a hyphen, with its byte
offset in the text; else, for a `plain` body without hyphens, the text's length; else the
wrong number of groups; else the first group of the wrong length. -/
def faultOf (body : List Char) (skipped : Nat) (plain : Bool) (total : Nat) : String :=
  match (byteOffsets body).find? fun (c, _) => !(c = '-' || (hexDigitValue c).isSome) with
  | some (c, index) =>
    "invalid character: found `" ++ String.singleton c ++ "` at " ++ toString (index + skipped)
  | none =>
    let hs := hyphens body
    if hs.isEmpty ∧ plain then s!"invalid length: found {total}"
    else if hs.length ≠ 4 then s!"invalid group count: expected 5, found {hs.length + 1}"
    else
      let starts := [0, 9, 14, 19, 24]
      let expected := [8, 4, 4, 4, 12]
      let wrong := (List.range 4).find? fun i => hs.getD i 0 ≠ starts.getD (i + 1) 0 - 1
      match wrong with
      | some i => s!"invalid group length in group {i}: expected {expected.getD i 0}, found {hs.getD i 0 - starts.getD i 0}"
      | none => s!"invalid group length in group 4: expected 12, found {total - 24}"

/-- The fault of a text looked at whole: braces around it, or a URN prefix in any case, are
set aside first, and only a text with neither can be of the plain form. -/
def analysis (s : String) : String :=
  let cs := s.toList
  if cs.length ≥ 2 ∧ cs.head? = some '\x7b' ∧ cs.getLast? = some '\x7d' then
    faultOf (cs.drop 1).dropLast 1 false s.utf8ByteSize
  else if hasUrnPrefix cs then faultOf (cs.drop 9) 9 false s.utf8ByteSize
  else faultOf cs 0 true s.utf8ByteSize

/-- Why a text that is not a UUID was refused. A text of 36 bytes, or of 38 in braces, or of
45 after the URN prefix, was read as the hyphenated form, and its 36 bytes are what is looked
at, with offsets from their start. A text of any other length up to 45 bytes is looked at
whole; a longer one has the wrong length. -/
def refusal (s : String) : String :=
  let cs := s.toList
  let n := s.utf8ByteSize
  let hyphenated (body : List Char) : String := faultOf body 0 false 36
  if n = 36 then hyphenated cs
  else if n = 38 ∧ cs.head? = some '\x7b' ∧ cs.getLast? = some '\x7d' then
    hyphenated (cs.drop 1).dropLast
  else if n = 45 ∧ hasUrnPrefix cs then hyphenated (cs.drop 9)
  else if n ≤ 45 then analysis s
  else s!"invalid length: found {n}"

/-- Reads a UUID, or says why the text is not one. -/
def read (s : String) : Except String Uuid :=
  match parse s with
  | some u => .ok u
  | none => .error ("UUID parsing failed: " ++ refusal s)

/-- `n` lower-case hexadecimal digits of a number. -/
def hexDigits (n value : Nat) : String :=
  let digit (d : Nat) : Char := if d < 10 then Char.ofNat (48 + d) else Char.ofNat (87 + d)
  String.ofList ((List.range n).reverse.map fun i => digit (value / Nat.pow 16 i % 16))

/-- The hyphenated lower-case form. -/
def render (u : Uuid) : String :=
  let h := hexDigits 32 u.value
  let cs := h.toList
  String.ofList (cs.take 8) ++ "-" ++ String.ofList ((cs.drop 8).take 4) ++ "-" ++
    String.ofList ((cs.drop 12).take 4) ++ "-" ++ String.ofList ((cs.drop 16).take 4) ++ "-" ++
    String.ofList (cs.drop 20)

end Uuid

end DoublesLineup
