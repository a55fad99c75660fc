import Stampline.Syntax.Walk
import Stampline.Stamp.Rules
import Stampline.Wasm.Text.Module
import Stampline.Wasm.Instance

/-!
# From a source to its run

The stages that a source goes through: it is read as a program, its integer literals are observed,
the rules of stamping are applied and the nodes that they made are located, the program is lowered,
and the executable is run in an environment. Each stage is complete before the next begins, and the
first error ends the sequence.

A pipeline carries the stamper, and the log of what its stages report, from source to source.
-/

namespace Stampline

/-- How sources are stamped. -/
structure StampOptions where
  /-- The name of the function whose calls are stamped. -/
  target : String := printName
  /-- Where the text of stamps comes from. -/
  policy : StampPolicy := .perCall
  /-- How an instant is written. -/
  pattern : String := defaultPattern
deriving DecidableEq, Repr

/-- What is carried from source to source. -/
structure Pipeline where
  /-- The name of the function whose calls are stamped. -/
  target : String
  /-- What hands out stamps. -/
  stamper : Stamper
  /-- What the stages reported. -/
  log : Log := []

/-- A program that is ready to be run. -/
structure Executable where
  /-- The name of the source it was lowered from. -/
  sourceName : String
  /-- The module in its binary format. -/
  bytes : List UInt8
deriving DecidableEq, Repr

/-- A program as it was read, and its integer literals. -/
structure Observed where
  /-- The program. -/
  program : Program
  /-- Its literals in the order of the source. -/
  literals : List Literal

/-- A program to which the rules were applied. -/
structure Stamped where
  /-- The literals of the program as it was read. -/
  literals : List Literal
  /-- The program, with every node located. -/
  program : Program
  /-- What the rules changed. -/
  count : RewriteCount
  /-- How many nodes had to be located. -/
  located : Nat

/-- All that a source is compiled to. -/
structure Artifact where
  /-- The program that was lowered. -/
  stamped : Stamped
  /-- What it was lowered to. -/
  executable : Executable

/-- How a run ends, and what it leaves. -/
structure Run where
  /-- How it ends. -/
  outcome : Except Error Unit
  /-- The environment that it leaves. -/
  env : Environment

/-! ## The stages by themselves -/

/-- The program that a source text is. -/
def Program.parse (source : String) : Except Error Program :=
  match scan source with
  | .error e => .error (.scan e)
  | .ok lexemes =>
    match parseLexemes lexemes with
    | .error e => .error (.parse e)
    | .ok p => .ok p

/-- The module that a program is lowered to, as an executable. -/
def Program.executable (p : Program) (source : String) : Except Error Executable :=
  match p.lower with
  | .error e => .error (.ofLower source e)
  | .ok m => .ok ⟨source, m.encode⟩

namespace Executable

/-- Runs an executable in an environment. The bytes are all that counts: they are decoded, checked
and linked before anything runs. There is no answer if `fuel` is not enough to reach the end. -/
def run (x : Executable) (fuel : Nat) (env : Environment) : Option Run :=
  match Wasm.read x.bytes with
  | none => some ⟨.error .instantiation, env⟩
  | some m =>
    match m.run fuel env with
    | .ended none env => some ⟨.ok (), env⟩
    | .ended (some fault) env => some ⟨.error (.execution fault), env⟩
    | .refused env => some ⟨.error .instantiation, env⟩
    | .unfinished => none

end Executable

/-! ## The stages in sequence -/

/-- A stage changes the pipeline, and succeeds or fails. -/
abbrev Stage (α : Type) := ExceptT Error (StateM Pipeline) α

namespace Pipeline

/-- A pipeline that no source has gone through. -/
def new (options : StampOptions) (clock : Clock) : Except Error Pipeline :=
  match Stamper.new options.policy options.pattern clock with
  | .ok stamper => .ok { target := options.target, stamper }
  | .error e => .error (.pattern e)

/-- Adds to the log. -/
def report (events : Log) : Stage Unit := modify fun pl => { pl with log := pl.log ++ events }

/-- Reads a source and observes its literals. -/
def observe (source : String) : Stage Observed := do
  let program ← Program.parse source
  report [.parsed program.length]
  let literals := program.literals
  report [.observed literals.length]
  return ⟨program, literals⟩

/-- Applies the rules to a program and locates the nodes that they made. -/
def stamp (observed : Observed) : Stage Stamped := do
  let pl ← get
  let rules := stampRules pl.target
  let (result, progress) := observed.program.rewrite rules pl.stamper
  set { pl with stamper := progress.state, log := pl.log ++ progress.log }
  match result with
  | .error e => throw (.ofRewrite rules.name e)
  | .ok program =>
    let (program, located) := program.locate
    report [.located located]
    return ⟨observed.literals, program, progress.count, located⟩

/-- Lowers a program from the source of the given name. -/
def lower (stamped : Stamped) (source : String) : Stage Artifact := do
  match stamped.program.lower with
  | .error e => throw (.ofLower source e)
  | .ok m =>
    let bytes := m.encode
    let functions := (Program.functions stamped.program).length
    let textBytes := (m.data.flatMap (·.bytes)).length
    report [.lowered source functions textBytes bytes.length]
    return ⟨stamped, ⟨source, bytes⟩⟩

/-- Takes a source through all stages but the last. -/
def compile (source name : String) : Stage Artifact := do
  let observed ← observe source
  let stamped ← stamp observed
  lower stamped name

/-- Runs an artifact in an environment. -/
def execute (pl : Pipeline) (artifact : Artifact) (fuel : Nat) (env : Environment) :
    Option Run × Pipeline :=
  let x := artifact.executable
  (x.run fuel env, { pl with log := pl.log ++ [.executing x.sourceName] })

/-- Takes a source through all stages. A source that cannot be compiled leaves the environment as it
is. -/
def run (pl : Pipeline) (source name : String) (fuel : Nat) (env : Environment) :
    Option Run × Pipeline :=
  match (compile source name).run.run pl with
  | (.error e, pl) => (some ⟨.error e, env⟩, pl)
  | (.ok artifact, pl) => pl.execute artifact fuel env

end Pipeline

/-- Compiles a source in a pipeline of its own, with the options that hold unless others are asked
for, and says what its stages reported. -/
def compileAlone (source name : String) (clock : Clock) : Except Error Artifact × Log :=
  match Pipeline.new {} clock with
  | .error e => (.error e, [])
  | .ok pl =>
    let (result, pl) := (Pipeline.compile source name).run.run pl
    (result, pl.log)

end Stampline
