import Stampline.CommandLine.Settings
import Stampline.CommandLine.Report
import Stampline.Syntax.Printer
import Stampline.Files.Source

/-!
# Sessions

The sources of one call of the program share a pipeline and an environment. A session is what one
source leaves to the next, and a turn is what happens with one of them.
-/

namespace Stampline.CommandLine

/-- What one source leaves to the next. -/
structure Session where
  /-- The pipeline. -/
  pipeline : Pipeline
  /-- The environment. -/
  env : Environment := {}
  /-- The bytes of the module that the latest source was lowered to. -/
  latest : Option (List UInt8) := none

/-- How a turn ends. -/
inductive Turn where
  /-- The next source can have its turn. -/
  | done (s : Session)
  /-- No other source has a turn. -/
  | failed (f : Failure)
  /-- There was not enough fuel to tell. -/
  | unfinished

namespace Session

/-- The session with another clock. How often a clock has been read stays as it is. -/
def withClock (s : Session) (clock : Clock) : Session :=
  { s with pipeline := { s.pipeline with stamper := { s.pipeline.stamper with clock } } }

/-- The turn of a source: what is printed, and how it ends. The literals are reported before the
rules are applied, and the stamped source is printed once it is known that it can be lowered. -/
def turn (settings : Settings) (fuel : Nat) (s : Session) (source : SourceFile) : String × Turn :=
  let notCompiled (e : Error) : Turn := .failed ⟨s!"failed to compile {source.name}", causesOf e⟩
  match (Pipeline.observe source.contents).run.run s.pipeline with
  | (.error e, _) => ("", notCompiled e)
  | (.ok observed, pl) =>
    let report := if settings.noReport then "" else literalReport observed.literals
    match (Pipeline.stamp observed).run.run pl with
    | (.error e, _) => (report, notCompiled e)
    | (.ok stamped, pl) =>
      match (Pipeline.lower stamped source.name).run.run pl with
      | (.error e, _) => (report, notCompiled e)
      | (.ok artifact, pl) =>
        let printed := if settings.dump then report ++ stamped.program.print else report
        let latest := some artifact.executable.bytes
        if settings.noRun then (printed, .done ⟨pl, s.env, latest⟩)
        else
          match pl.execute artifact fuel s.env with
          | (none, _) => (printed, .unfinished)
          | (some r, pl) =>
            let (output, env) := r.env.takeOutput
            match r.outcome with
            | .ok () => (printed ++ output, .done ⟨pl, env, latest⟩)
            | .error e =>
              (printed ++ output, .failed ⟨s!"failed to run {source.name}", causesOf e⟩)

end Session

end Stampline.CommandLine
