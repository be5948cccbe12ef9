import DoublesLineup.Json.Shape
import DoublesLineup.Json.Decode
import DoublesLineup.Ident.Uuid
import DoublesLineup.Time.Timestamp
import DoublesLineup.Text.Escape
/-! # What a program sees and what it leaves

A program runs against a `World`: the files it can open, the identifier it gives its answer
and the current time. It leaves an `Outcome`: an exit status, what it wrote to standard
output, the records it logged, and the text it wrote to standard error on stopping.

A program that fails stops with a `Failure`: a message and the causes behind it, outermost
first. Reading a document fails when the file cannot be opened or when its text is not a
document of the expected shape.
-/

namespace DoublesLineup

namespace Command

/-- What a path names. -/
inductive Entry where
  /-- A file with its text. -/
  | file (text : String)
  /-- A directory. -/
  | directory
  /-- A device that reads as empty, such as the null device; not a file. -/
  | device
  deriving Inhabited

/-- What a program can see of the system. -/
structure World where
  /-- What each place names, if anything: places are written relative to the working
  directory (`.` for itself, `..` for its parent) or from the root (`/dev/null`), with their
  components joined by `/`. -/
  files : String → Option Entry
  /-- The identifier for the program's answer. -/
  answerId : Uuid
  /-- The time of the run. -/
  now : Timestamp

/-- The importance of a log record. -/
inductive Level where
  /-- Progress and results. -/
  | info
  /-- Something the user should look at. -/
  | warn
  deriving Repr, DecidableEq, Inhabited

/-- The name of a level as logs show it. -/
def Level.name : Level → String
  | .info => "INFO"
  | .warn => "WARN"

/-- A log record: its level, where it comes from, and its message, which may span lines. -/
structure LogRecord where
  level : Level
  target : String
  message : String
  deriving Inhabited

/-- A log record as one line of text (or more, when the message has several), its message
with the characters that steer a terminal written out. -/
def LogRecord.render (r : LogRecord) : String :=
  r.level.name ++ " " ++ r.target ++ ": " ++ Text.logSafe r.message

/-- What a run leaves behind. -/
structure Outcome where
  /-- The exit status: 0 on success. -/
  status : Nat
  /-- Standard output. -/
  stdout : String := ""
  /-- The log, oldest first. -/
  log : List LogRecord := []
  /-- What was written to standard error on stopping. -/
  stderr : String := ""
  deriving Inhabited

/-- Why a program stopped: a message and the causes behind it, outermost first. -/
structure Failure where
  message : String
  causes : List String := []
  deriving Inhabited

/-- `s` with `head` before its first line and `margin` before each later one, empty lines
included. -/
def indentLines (head margin s : String) : String :=
  head ++ ("\n" ++ margin).intercalate (s.splitOn "\n")

/-- A cause's number right-aligned in five columns, then a colon and a blank. -/
def causeNumber (k : Nat) : String :=
  let n := toString k
  String.ofList (List.replicate (5 - n.length) ' ') ++ n ++ ": "

/-- A failure as the program reports it: the message, then its causes indented under it,
numbered when there are several; a cause of several lines keeps every line under its first. -/
def Failure.render (f : Failure) : String :=
  match f.causes with
  | [] => f.message
  | [c] => f.message ++ "\n\nCaused by:\n" ++ indentLines "    " "    " c
  | cs => f.message ++ "\n\nCaused by:" ++
    String.join (cs.zipIdx.map fun (c, k) => "\n" ++ indentLines (causeNumber k) "       " c)

/-- The outcome of a program stopped by a failure, after logging `log`. -/
def Failure.outcome (f : Failure) (log : List LogRecord) : Outcome :=
  { status := 1, log, stderr := "Error: " ++ f.render ++ "\n" }

/-- The message of a file that does not exist. -/
def notFound : String := "No such file or directory (os error 2)"

/-- The message of reading a directory as a file. -/
def isDirectory : String := "Is a directory (os error 21)"

/-- The message of a path that goes on past something that is not a directory. -/
def notDirectory : String := "Not a directory (os error 20)"

/-- The place that components name, as the world writes it: from the root for an
`absolute` path, else from the working directory, which is `.` itself. -/
def placeOf (absolute : Bool) (parts : List String) : String :=
  if absolute then "/" ++ "/".intercalate parts
  else if parts.isEmpty then "." else "/".intercalate parts

/-- The place one step up: the last component goes, unless there is none or it is itself a
step up; the root is its own parent. -/
def parentOf (absolute : Bool) (parts : List String) : List String :=
  match parts.getLast? with
  | none => if absolute then [] else [".."]
  | some ".." => parts ++ [".."]
  | some _ => parts.dropLast

/-- What a path names, found as the system finds it: component by component from the working
directory, or from the root for a path starting with `/`; `.` stays where it is and `..`
goes up. Each component must be found, every one before the last must be a directory, and
so must the last when the path ends with `/`. The empty path names nothing. -/
def World.lookup (w : World) (path : String) : Except String Entry :=
  let absolute := path.startsWith "/"
  let step (current : List String) (part : String) : List String :=
    if part = "." then current
    else if part = ".." then parentOf absolute current
    else current ++ [part]
  let rec walk (current : List String) (entry : Entry) : List String → Except String Entry
    | [] => .ok entry
    | part :: rest =>
      match entry with
      | .directory =>
        let next := step current part
        match w.files (placeOf absolute next) with
        | some e => walk next e rest
        | none => .error notFound
      | _ => .error notDirectory
  if path.isEmpty then .error notFound
  else
    match w.files (placeOf absolute []) with
    | none => .error notFound
    | some start =>
      match walk [] start ((path.splitOn "/").filter (· ≠ "")) with
      | .ok .directory => .ok .directory
      | .ok e => if path.endsWith "/" then .error notDirectory else .ok e
      | .error m => .error m

/-- Whether a path names a file. -/
def World.isFile (w : World) (path : String) : Bool :=
  match w.lookup path with
  | .ok (.file _) => true
  | _ => false

/-- Reads a document of a shape from a file and decodes it; a device reads as empty. -/
def World.readDocument {α : Type} (w : World) (path : String) (shape : Shape)
    (decode : Decoder α) : Except Failure α :=
  let text : Except Failure String := match w.lookup path with
    | .error m => .error { message := "opening " ++ path, causes := [m] }
    | .ok .directory => .error { message := "parsing " ++ path, causes := [isDirectory] }
    | .ok .device => .ok ""
    | .ok (.file text) => .ok text
  match text with
  | .error f => .error f
  | .ok text =>
    match shape.read text with
    | .error e => .error { message := "parsing " ++ path, causes := [e.render] }
    | .ok j =>
      match decode j with
      | .ok a => .ok a
      | .error e => .error { message := "parsing " ++ path, causes := [e.message] }

end Command

end DoublesLineup
