import Stampline.Error
import Stampline.Syntax.Walk
import Stampline.Text.Quoted
import Stampline.Text.Terminal

/-!
# What the user reads

The text of a failure, of a warning, of the report of literals, of the version and of the help.
-/

namespace Stampline.CommandLine

/-- Why the program fails: what it was about to do, and why it could not, from the nearest cause to
the farthest. -/
structure Failure where
  /-- What it was about to do. -/
  context : String
  /-- Why it could not. -/
  causes : List String := []
deriving DecidableEq, Repr

/-- Text with `margin` in front of every line but the first. -/
def hanging (margin text : String) : String :=
  String.join (text.toList.map fun c => if c = '\n' then "\n" ++ margin else String.singleton c)

/-- The lines of the causes. If there are several they are numbered. -/
def causeLines (causes : List String) : List String :=
  match causes with
  | [cause] => ["    " ++ hanging "    " cause]
  | causes => causes.zipIdx.map fun (cause, n) =>
    let number := toString n
    padded 5 ' ' number ++ ": " ++ hanging "       " cause

/-- The text of a failure. -/
def Failure.text (f : Failure) : String :=
  let lines := ["Error: " ++ f.context] ++
    if f.causes.isEmpty then [] else ["", "Caused by:"] ++ causeLines f.causes
  "\n".intercalate lines ++ "\n"

/-- An error and what is behind it. -/
def causesOf : Error → List String
  | .unreadable fault =>
    [(Error.unreadable fault).message, fault.message] ++ (fault.cause?.map (·.message)).toList
  | e => [e.message]

/-- The warning that nothing was found at an input. Unlike a failure it is written without control
sequences. -/
def nothingFound (path : String) : String :=
  Text.withoutControls
    ("[WARN  lpy_cli] no source files found under " ++ hanging "    " path ++ "\n")

/-- The report of the literals of a source. -/
def literalReport (literals : List Literal) : String :=
  let rule := String.ofList (List.replicate 20 '-') ++ "\n"
  rule ++ String.join (literals.map fun l => s!"visit Num {l.value.toInt}\n") ++ rule

/-- The text of the version. -/
def versionText : String := "lpy-cli 0.1.0\n"

/-- The line that says how the program is used. -/
def usageLine : String := "Usage: lpy-cli [OPTIONS] [INPUTS]...\n"

/-- The text for arguments that cannot be made out. -/
def misuseText : String := usageLine ++ "\nFor more information, try '--help'.\n"

/-- The text of the help. -/
def helpText : String :=
  "Runs lpy programs after stamping every `print` call with the time\n\n" ++ usageLine ++
  "\nArguments:\n" ++
  "  [INPUTS]...  Source files or directories to run in order; reads stdin when empty\n" ++
  "\nOptions:\n" ++
  "      --target <NAME>            Name of the function whose calls receive the timestamp" ++
    " [default: print]\n" ++
  "      --timestamp <TIMESTAMP>    When the timestamp is read from the clock" ++
    " [default: per-call] [possible values: per-call, per-run]\n" ++
  "      --fixed-timestamp <TEXT>   Insert this text instead of reading the clock\n" ++
  "      --stamp-format <STRFTIME>  Format of the timestamp, rendered in UTC [default: " ++
    Text.quoted defaultPattern ++ "]\n" ++
  "      --dump                     Print the rewritten source of every input\n" ++
  "  -o, --output <PATH>            Write the wasm module of the last input to PATH\n" ++
  "      --no-run                   Compile without running\n" ++
  "      --no-report                Do not print the numeric literal report\n" ++
  "  -h, --help                     Print help\n" ++
  "  -V, --version                  Print version\n"

end Stampline.CommandLine
