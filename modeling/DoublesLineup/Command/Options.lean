/-! # Command-line options

A program takes options by long name (`--request file`, `--request=file`) or by short name
(`-r file`, `-rfile`, `-r=file`); a switch takes no value. Every program also takes `-h` and
`--help`, which print its help and stop. Each option may be given once; an option that takes
a value needs a nonempty one; required options must be given; anything else is refused with
a message naming the trouble, how to use the program, and where to find help. An unknown long
option close to a known one is answered with that one as a tip.
-/

namespace DoublesLineup

namespace Command

/-- An option of a command line. -/
structure Flag where
  /-- The long name, written after two hyphens. -/
  long : String
  /-- The short name, written after one hyphen. -/
  short : Option Char := none
  /-- The name of the value the option takes, if it takes one. -/
  valueName : Option String := none
  /-- Whether the option must be given. -/
  required : Bool := false
  /-- What the option is for, as help shows it. -/
  help : String
  deriving Inhabited

/-- The option that asks for help. -/
def helpFlag : Flag := { long := "help", short := some 'h', help := "Print help" }

/-- A program's command line: its name and its options, in the order help lists them. -/
structure Interface where
  program : String
  flags : List Flag
  deriving Inhabited

/-- The options given: long names with their values, in the order given; a switch has no
value. -/
abbrev Given := List (String × Option String)

/-- What a command line asks for. -/
inductive Request where
  /-- The help text. -/
  | help
  /-- A refusal, with its message. -/
  | refused (message : String)
  /-- A run with the options given. -/
  | run (given : Given)
  deriving Inhabited

namespace Flag

/-- An option as messages name it: `--request <REQUEST>`, or `--json` for a switch. -/
def display (f : Flag) : String :=
  "--" ++ f.long ++ (match f.valueName with
    | some v => " <" ++ v ++ ">"
    | none => "")

/-- An option as help lists it, with its short name first. -/
def listing (f : Flag) : String :=
  (match f.short with
    | some c => "-" ++ String.singleton c ++ ", "
    | none => "    ") ++ f.display

end Flag

namespace Interface

/-- Every option, help last. -/
def allFlags (i : Interface) : List Flag := i.flags ++ [helpFlag]

/-- The options that must be given. -/
def requiredFlags (i : Interface) : List Flag := i.flags.filter (·.required)

/-- How to use the program, as help shows it. -/
def helpUsage (i : Interface) : String :=
  " ".intercalate ([i.program] ++
    (if i.allFlags.any (!·.required) then ["[OPTIONS]"] else []) ++
    i.requiredFlags.map Flag.display)

/-- The program's own options as one group, `<--request <REQUEST>|--json>`. -/
def groupDisplay (i : Interface) : String :=
  "<" ++ "|".intercalate (i.flags.map Flag.display) ++ ">"

/-- A list with each element kept at its first place only. -/
def firstOccurrences (names : List String) : List String :=
  names.foldl (fun acc n => if acc.contains n then acc else acc ++ [n]) []

/-- How to use the program in view of the options `used`: the required options, then the
others used, each once. With `grouped` the program's own options are shown as their group
after the rest, so that only help stays outside it. -/
def usageWith (i : Interface) (used : List String) (grouped : Bool) : String :=
  let names := firstOccurrences (i.requiredFlags.map (·.long) ++ used)
  let inGroup (f : Flag) : Bool := grouped && i.flags.any (·.long == f.long)
  let shown := names.filterMap fun name =>
    match i.allFlags.find? (·.long == name) with
    | some f => if inGroup f then none else some f
    | none => none
  " ".intercalate ([i.program] ++ shown.map Flag.display ++
    (if grouped then [i.groupDisplay] else []))

/-- How to use the program, in view of the options `used`: the required options, then the
others used. With none used it is the help form. -/
def usageFor (i : Interface) (used : List String) : String :=
  if used.isEmpty then i.helpUsage else i.usageWith used false

/-- The help text. -/
def helpText (i : Interface) : String :=
  let flags := i.allFlags
  let width := flags.foldl (fun w f => max w f.listing.length) 0
  let line (f : Flag) : String :=
    "  " ++ f.listing ++ String.ofList (List.replicate (width - f.listing.length + 2) ' ') ++ f.help
  "Usage: " ++ i.helpUsage ++ "\n\nOptions:\n" ++ String.join (flags.map fun f => line f ++ "\n")

/-- A refusal: the trouble, then how to use the program if given, then where help is. -/
def refusal (problem : String) (usage : Option String) : String :=
  "error: " ++ problem ++ "\n\n" ++
    (match usage with
      | some u => "Usage: " ++ u ++ "\n\n"
      | none => "") ++
    "For more information, try '--help'.\n"

end Interface

/-- The Jaro similarity of two texts: from 0 for nothing in common to 1 for equal texts.
Each character of `a` in turn matches the first free equal character of `b` less than half
the longer length away; the matched characters of each text, read in order, are compared
pairwise, and half the disagreements count as transpositions. -/
def jaro (a b : String) : Float :=
  let xs := a.toList
  let ys := b.toList
  if xs.isEmpty && ys.isEmpty then 1.0
  else if xs.isEmpty || ys.isEmpty then 0.0
  else
    let range := max xs.length ys.length / 2 - 1
    let step (state : List Bool × List Char) (entry : Char × Nat) :=
      let (taken, hits) := state
      let (x, i) := entry
      let low := i - range
      match (ys.zipIdx.take (i + range + 1)).find? fun (y, j) =>
          low ≤ j && y == x && !taken.getD j true with
      | some (_, j) => (taken.set j true, hits ++ [x])
      | none => (taken, hits)
    let (taken, hitsA) := xs.zipIdx.foldl step (List.replicate ys.length false, [])
    let hitsB := (ys.zip taken).filterMap fun (y, t) => if t then some y else none
    let m := hitsA.length
    if m = 0 then 0.0
    else
      let swaps := ((hitsA.zip hitsB).filter fun (p, q) => p != q).length / 2
      (m.toFloat / xs.length.toFloat + m.toFloat / ys.length.toFloat +
        (m - swaps).toFloat / m.toFloat) / 3.0

/-- The known long name most like `name`, if one is like it enough; of equally like ones, the
last. -/
def similar (i : Interface) (name : String) : Option String :=
  i.allFlags.foldl (fun best f =>
    let score := jaro name f.long
    if score > 0.7 then
      match best with
      | some (_, s) => if score ≥ s then some (f.long, score) else best
      | none => some (f.long, score)
    else best) none |>.map (·.1)

/-- The refusal of an unknown option or a stray word. -/
def unexpected (i : Interface) (arg : String) (tip : Option String) (used : List String) : String :=
  Interface.refusal ("unexpected argument '" ++ arg ++ "' found" ++
    (match tip with
      | some t => "\n\n  tip: a similar argument exists: '--" ++ t ++ "'"
      | none => "")) (some (i.usageFor used))

/-- The refusal of an option without its value. -/
def emptyValue (f : Flag) : String :=
  Interface.refusal ("a value is required for '" ++ f.display ++ "' but none was supplied") none

/-- The refusal of an option given twice. -/
def repeated (i : Interface) (f : Flag) : String :=
  Interface.refusal ("the argument '" ++ f.display ++ "' cannot be used multiple times")
    (some i.helpUsage)

/-- Records an option with its value, if it is new and the value is not empty. -/
def record (i : Interface) (given : Given) (f : Flag) (value : Option String) :
    Except String Given :=
  if given.any (·.1 == f.long) then .error (repeated i f)
  else if value == some "" then .error (emptyValue f)
  else .ok (given ++ [(f.long, value)])

/-- Settles an option still waiting for its value. -/
def settle (i : Interface) (given : Given) : Option (Flag × Option String) → Except String Given
  | none => .ok given
  | some (f, none) => .error (emptyValue f)
  | some (f, some v) => record i given f (some v)

/-- The names of the options used so far once a waiting option with a value is taken in,
its refusals aside: it is added, even with an empty value, unless it was given before, in
which case both go. A waiting option without a value is left out. -/
def usedNames (given : Given) (waiting : Option (Flag × Option String)) : List String :=
  let names := given.map (·.1)
  match waiting with
  | some (f, some _) => if names.contains f.long then names.erase f.long else names ++ [f.long]
  | _ => names

/-- What the options given so far come to at the end of the line. -/
def finish (i : Interface) (given : Given) (waiting : Option (Flag × Option String)) : Request :=
  match settle i given waiting with
  | .error e => .refused e
  | .ok given =>
    let missing := i.requiredFlags.filter fun f => !given.any (·.1 == f.long)
    if missing.isEmpty then .run given
    else
      .refused (Interface.refusal ("the following required arguments were not provided:" ++
        String.join (missing.map fun f => "\n  " ++ f.display))
        (some (i.usageFor (given.map (·.1) ++ missing.map (·.long)))))

/-- Finds an option by its short name. -/
def byShort (i : Interface) (c : Char) : Option Flag := i.allFlags.find? (·.short == some c)

/-- Finds an option by its long name. -/
def byLong (i : Interface) (name : String) : Option Flag := i.allFlags.find? (·.long == name)

/-- Acts on a known option, given with an attached value or not: first settles a waiting
option, then asks for help, records a switch, records a value, or waits for one. -/
def react (i : Interface) (given : Given) (waiting : Option (Flag × Option String)) (f : Flag)
    (attached : Option String) : Except String (Option (Given × Option (Flag × Option String))) :=
  match settle i given waiting with
  | .error e => .error e
  | .ok given =>
    if f.long == helpFlag.long then .ok none
    else match f.valueName, attached with
      | none, _ => (record i given f none).map fun g => some (g, none)
      | some _, some v => (record i given f (some v)).map fun g => some (g, none)
      | some _, none => .ok (some (given, some (f, none)))

mutual

/-- Reads the words of a command line. `waiting` is an option that takes the next word as its
value (with the value once it has it); after `--` every word is stray, and an option still
waiting for its value goes without it. -/
def scan (i : Interface) : List String → Given → Option (Flag × Option String) → Bool → Request
  | [], given, waiting, _ => finish i given waiting
  | arg :: rest, given, waiting, trailing =>
    let stray (arg : String) : Request :=
      match waiting with
      | some (f, none) => scan i rest given (some (f, some arg)) trailing
      | _ => .refused (unexpected i arg none [])
    if trailing then .refused (unexpected i arg none [])
    else if arg = "--" then scan i rest given waiting true
    else if arg.startsWith "--" then
      let body := arg.drop 2
      let name := (body.takeWhile (· != '=')).toString
      let attached := if body.contains '=' then some (body.dropWhile (· != '=') |>.drop 1).toString
        else none
      match byLong i name with
      | none =>
        let tip := similar i name
        .refused (unexpected i ("--" ++ name) tip (usedNames given waiting ++ tip.toList))
      | some f =>
        match f.valueName, attached with
        | none, some v =>
          -- the options taken so far, the required ones aside, with this one; any taken
          -- option brings the group of the program's options along
          let used := (given.filter fun (n, _) =>
            !(i.requiredFlags.any (·.long == n))).map (·.1) ++ [f.long]
          .refused (Interface.refusal ("unexpected value '" ++ v ++ "' for '" ++ f.display ++
            "' found; no more were expected") (some (i.usageWith used !given.isEmpty)))
        | _, _ =>
          match react i given waiting f attached with
          | .error e => .refused e
          | .ok none => .help
          | .ok (some (given, waiting)) => scan i rest given waiting false
    else if arg.startsWith "-" && arg.length > 1 then
      cluster i rest (arg.toList.drop 1) given waiting
    else stray arg

/-- Reads a cluster of short options such as `-rfile` or `-h`. -/
def cluster (i : Interface) (rest : List String) : List Char → Given →
    Option (Flag × Option String) → Request
  | [], given, waiting => scan i rest given waiting false
  | c :: cs, given, waiting =>
    match byShort i c with
    | none => .refused (unexpected i ("-" ++ String.singleton c) none [])
    | some f =>
      let attached := match f.valueName, cs with
        | some _, '=' :: v => some (String.ofList v)
        | some _, [] => none
        | some _, v => some (String.ofList v)
        | none, _ => none
      match react i given waiting f attached with
      | .error e => .refused e
      | .ok none => .help
      | .ok (some (given, waiting)) =>
        if f.valueName.isSome then scan i rest given waiting false
        else cluster i rest cs given waiting

end

/-- Reads a command line. -/
def Interface.parse (i : Interface) (args : List String) : Request := scan i args [] none false

/-- The value of an option given. -/
def valueOf (given : Given) (name : String) : Option String :=
  (given.find? (·.1 == name)).bind (·.2)

/-- Whether a switch was given. -/
def switchOn (given : Given) (name : String) : Bool := given.any (·.1 == name)

end Command

end DoublesLineup
