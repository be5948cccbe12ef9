import DoublesLineup.Command.Options
import DoublesLineup.Command.Outcome
import DoublesLineup.Optimizer.Config.Json
import DoublesLineup.Console.Report
/-! # The `calibrate` program

`calibrate -f ROWS [-c CONFIG]` scores the win rate alone and the blended estimate against
held-out outcomes. It checks that the rows file exists, reads and checks the configuration,
reads the rows, and logs the table of scores and the improvement in Brier score from blending.
-/

namespace DoublesLineup

namespace Command

/-- The command line of `calibrate`. -/
def calibrateInterface : Interface :=
  { program := "calibrate"
    flags := [
      { long := "file", short := some 'f', valueName := some "FILE", required := true
        help := "file to source the holdout rows from" },
      { long := "config", short := some 'c', valueName := some "CONFIG"
        help := "optional optimiser config file" }] }

/-- The log target of the program. -/
def calibrateTarget : String := "calibrate"

/-- Runs `calibrate` with its options once they have been read. -/
def calibrateWith (w : World) (given : Given) : Outcome :=
  let path := (valueOf given "file").getD ""
  let fail (f : Failure) : Outcome := f.outcome []
  if !w.isFile path then fail ⟨"holdout file " ++ path ++ " does not exist", []⟩
  else
    let config : Except Failure Config := match valueOf given "config" with
      | some configPath => w.readDocument configPath Shape.config Decoder.config
      | none => .ok {}
    match config with
    | .error f => fail f
    | .ok config =>
    match config.validate with
    | .error msg => fail ⟨msg, []⟩
    | .ok () =>
    match w.readDocument path (.seq Shape.holdoutRow) (Decoder.list Decoder.holdoutRow) with
    | .error f => fail f
    | .ok rows =>
    match CalibrationReport.evaluate Float.log rows config.calibrationBlender with
    | .error fault =>
      { status := 101, stderr := "thread 'main' panicked:\n" ++ fault.message ++ "\n" }
    | .ok none => fail ⟨"no holdout rows in " ++ path, []⟩
    | .ok (some report) =>
      let info (message : String) : LogRecord := ⟨.info, calibrateTarget, message⟩
      { status := 0
        log := [info (toString report.rows ++ " rows, " ++ toString report.withSecondary ++
            " with a point-differential signal:\n" ++ (tabulateCalibration report).render),
          info ("brier improvement from blending: " ++ Decimal.fixed 6 report.brierImprovement)] }

/-- Runs `calibrate` on a command line. -/
def calibrate (w : World) (args : List String) : Outcome :=
  match calibrateInterface.parse args with
  | .help => { status := 0, stdout := calibrateInterface.helpText }
  | .refused message => { status := 2, stderr := message }
  | .run given => calibrateWith w given

end Command

end DoublesLineup
