import DoublesLineup.Command.Recommend
import DoublesLineup.Command.Calibrate
import Std.Time.Format
/-! # The command line

`doubles-lineup recommend …` and `doubles-lineup calibrate …` run the two programs. This is the
only place that touches the system: it reads the files the arguments may name, draws a fresh
identifier, reads the clock, runs the program, and writes what it leaves.
-/

open DoublesLineup Command
open System (FilePath)

/-- What a path names on disk, if anything. -/
def probe (path : String) : IO (Option Entry) := do
  try
    pure (some (.file (← IO.FS.readFile path)))
  catch _ =>
    if ← FilePath.isDir path then pure (some .directory) else pure none

/-- The paths an argument may name: itself, and the value attached to an option. -/
def candidates (arg : String) : List String :=
  if arg.startsWith "--" then
    if arg.contains '=' then [arg, (arg.dropWhile (· != '=') |>.drop 1).toString] else [arg]
  else if arg.startsWith "-" then
    let value := (arg.drop 2).toString
    [arg, value, (value.dropWhile (· == '=')).toString]
  else [arg]

/-- A random identifier of version 4. -/
def freshId : IO Uuid := do
  let bytes := (← IO.getRandomBytes 16).toList.map (·.toNat)
  let bytes := (bytes.set 6 (bytes.getD 6 0 % 16 + 64)).set 8 (bytes.getD 8 0 % 64 + 128)
  pure ⟨bytes.foldl (fun acc b => acc * 256 + b) 0⟩

/-- The current time. -/
def currentTime : IO Timestamp := do
  let nanos := (← Std.Time.Timestamp.now).toNanosecondsSinceUnixEpoch.val
  pure ⟨nanos / 1000000000, (nanos % 1000000000).toNat⟩

/-- A log record as written to standard error, after the time. -/
def logLine (now : Timestamp) (r : LogRecord) : String :=
  now.render ++ "  " ++ r.render

/-- How to call this program. -/
def usage : IO UInt32 := do
  (← IO.getStderr).putStrLn "usage: doubles-lineup <recommend|calibrate> [OPTIONS]"
  pure 2

def main (args : List String) : IO UInt32 := do
  let program := match args with
    | "recommend" :: _ => some recommend
    | "calibrate" :: _ => some calibrate
    | _ => none
  match program with
  | none => usage
  | some run =>
    let rest := args.drop 1
    let paths := (rest.flatMap candidates).eraseDups
    let entries ← paths.mapM fun p => do pure (p, ← probe p)
    let world : World :=
      { files := fun p => (entries.find? (·.1 == p)).bind (·.2)
        answerId := ← freshId
        now := ← currentTime }
    let outcome := run world rest
    let err ← IO.getStderr
    for r in outcome.log do
      err.putStrLn (logLine world.now r)
    let out ← IO.getStdout
    out.putStr outcome.stdout
    err.putStr outcome.stderr
    out.flush
    err.flush
    pure outcome.status.toUInt32
