import DoublesLineup.Command.Options
import DoublesLineup.Command.Outcome
import DoublesLineup.Request.Json
import DoublesLineup.Request.Validate
import DoublesLineup.Optimizer.Config.Json
import DoublesLineup.Console.Report
/-! # The `recommend` program

`recommend -r REQUEST -b BUNDLE [-c CONFIG] [--json]` answers a request from a feature bundle.
It checks that both files exist, reads and checks the configuration, reads and validates the
request, reads the bundle, and answers. With `--json` it prints the response; otherwise it logs
a summary, the staleness warning, the table of recommendations and each schedule. Warnings
raised while answering are logged first.
-/

namespace DoublesLineup

namespace Command

/-- The command line of `recommend`. -/
def recommendInterface : Interface :=
  { program := "recommend"
    flags := [
      { long := "request", short := some 'r', valueName := some "REQUEST", required := true
        help := "file to source the recommendation request from" },
      { long := "bundle", short := some 'b', valueName := some "BUNDLE", required := true
        help := "file to source the feature bundle from" },
      { long := "config", short := some 'c', valueName := some "CONFIG"
        help := "optional optimiser config file" },
      { long := "json", help := "emit the response as JSON" }] }

/-- The log target of the program. -/
def recommendTarget : String := "recommend"

/-- The log target of warnings raised while answering. -/
def answerTarget : String := "lineup::recommend"

/-- How a list of violations is shown when a request is refused. -/
def invalidRequestText (violations : List String) : String :=
  "InvalidRequest \x7b violations: [" ++ ", ".intercalate (violations.map Text.quoted) ++ "] \x7d"

/-- Runs `recommend` with its options once they have been read. -/
def recommendWith (w : World) (given : Given) : Outcome :=
  let requestPath := (valueOf given "request").getD ""
  let bundlePath := (valueOf given "bundle").getD ""
  let fail (f : Failure) : Outcome := f.outcome []
  if !w.isFile requestPath then fail ⟨"request file " ++ requestPath ++ " does not exist", []⟩
  else if !w.isFile bundlePath then fail ⟨"bundle file " ++ bundlePath ++ " does not exist", []⟩
  else
    let config : Except Failure Config := match valueOf given "config" with
      | some path => w.readDocument path Shape.config Decoder.config
      | none => .ok {}
    match config with
    | .error f => fail f
    | .ok config =>
    match Optimizer.ofConfig config with
    | .error msg => fail ⟨msg, []⟩
    | .ok optimizer =>
    match w.readDocument requestPath Shape.request Decoder.request with
    | .error f => fail f
    | .ok request =>
    match validateRequest request with
    | .error violations =>
      { status := 1, stderr := "Error: " ++ invalidRequestText violations ++ "\n" }
    | .ok () =>
    match w.readDocument bundlePath Shape.featureBundle Decoder.featureBundle with
    | .error f => fail f
    | .ok bundle =>
    match optimizer.respond Sha256.hasher Wyrand.generator request bundle w.answerId w.now with
    | .error fault =>
      { status := 101, stderr := "thread 'main' panicked:\n" ++ fault.message ++ "\n" }
    | .ok (response, notices) =>
      let warnings := notices.map fun n => LogRecord.mk .warn answerTarget n.message
      if switchOn given "json" then
        { status := 0, stdout := response.toJson.renderIndented 0 ++ "\n", log := warnings }
      else
        let info (message : String) : LogRecord := ⟨.info, recommendTarget, message⟩
        let directory := response.playerDirectory
        let summary := info ("request " ++ response.requestId.render ++ " (" ++ request.mode.name ++
          " mode, objective " ++ response.objective.name ++ ")")
        let staleness := match response.bundleMetadata.warning with
          | some warning => [LogRecord.mk .warn recommendTarget warning]
          | none => []
        let table := info ("recommendations against " ++ toString response.scenarioCount ++
          " scenarios:\n" ++ (tabulateRecommendations response.recommendations directory).render)
        let schedules := response.recommendations.filterMap fun r => r.schedule.map fun s =>
          info ("schedule for rank " ++ toString r.rank ++ ":\n" ++ (tabulateSchedule s directory).render)
        { status := 0, log := warnings ++ [summary] ++ staleness ++ [table] ++ schedules }

/-- Runs `recommend` on a command line. -/
def recommend (w : World) (args : List String) : Outcome :=
  match recommendInterface.parse args with
  | .help => { status := 0, stdout := recommendInterface.helpText }
  | .refused message => { status := 2, stderr := message }
  | .run given => recommendWith w given

end Command

end DoublesLineup
