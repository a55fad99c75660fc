import Stampline.Pipeline

/-!
# Settings

What the arguments of the command line ask for. They are read from left to right. The first of them
that cannot be read, or that asks for help or for the version, settles the matter; those behind it
do not count.

An option may be given once. Its value is attached to it, or it is the next argument, which then
must not look like an option itself. Behind the argument `--` there are inputs only.
-/

namespace Stampline.CommandLine

/-- What the arguments ask for. -/
structure Settings where
  /-- The paths of the sources; without any the source is standard input. -/
  inputs : List String := []
  /-- The name of the function whose calls are stamped. -/
  target? : Option String := none
  /-- When the clock is read. -/
  policy? : Option StampPolicy := none
  /-- The text of all stamps, which spares the clock. -/
  fixed? : Option String := none
  /-- How an instant is written. -/
  pattern? : Option String := none
  /-- Where the module of the last source is written. -/
  output? : Option String := none
  /-- Whether the stamped sources are printed. -/
  dump : Bool := false
  /-- Whether nothing is run. -/
  noRun : Bool := false
  /-- Whether literals go unreported. -/
  noReport : Bool := false
deriving DecidableEq, Repr

/-- How sources are stamped. -/
def Settings.stampOptions (s : Settings) : StampOptions where
  target := s.target?.getD printName
  policy := match s.fixed? with
    | some text => .fixed text
    | none => s.policy?.getD .perCall
  pattern := s.pattern?.getD defaultPattern

/-- An option. -/
inductive Choice where
  | target | timestamp | fixedTimestamp | stampFormat | output
  | dump | noRun | noReport
  | help | version
deriving DecidableEq, Repr

namespace Choice

/-- The name of an option. -/
def name : Choice → String
  | target => "target"
  | timestamp => "timestamp"
  | fixedTimestamp => "fixed-timestamp"
  | stampFormat => "stamp-format"
  | output => "output"
  | dump => "dump"
  | noRun => "no-run"
  | noReport => "no-report"
  | help => "help"
  | version => "version"

/-- The options. -/
def all : List Choice :=
  [target, timestamp, fixedTimestamp, stampFormat, output, dump, noRun, noReport, help, version]

/-- The letter that stands for an option, if there is one. -/
def ofLetter? : Char → Option Choice
  | 'o' => some output
  | 'h' => some help
  | 'V' => some version
  | _ => none

/-- Whether an option has a value. -/
def hasValue : Choice → Bool
  | target | timestamp | fixedTimestamp | stampFormat | output => true
  | _ => false

end Choice

/-- What a value of the option for the time of stamps stands for. -/
def policyOf? (value : String) : Option StampPolicy :=
  if value = "per-call" then some .perCall
  else if value = "per-run" then some .perRun
  else none

/-- The value of an option that is given for the first time. -/
def once {α : Type} (before : Option α) (value : Option α) : Option (Option α) :=
  match before, value with
  | none, some value => some (some value)
  | _, _ => none

namespace Settings

/-- Chooses an option with a value, unless it was chosen before or cannot have that value. A path is
not empty. -/
def choose (s : Settings) (value : String) : Choice → Option Settings
  | .target => (once s.target? (some value)).map fun v => { s with target? := v }
  | .timestamp => (once s.policy? (policyOf? value)).map fun v => { s with policy? := v }
  | .fixedTimestamp => (once s.fixed? (some value)).map fun v => { s with fixed? := v }
  | .stampFormat => (once s.pattern? (some value)).map fun v => { s with pattern? := v }
  | .output =>
    (once s.output? (if value.isEmpty then none else some value)).map fun v =>
      { s with output? := v }
  | _ => none

/-- Chooses an option without a value, unless it was chosen before. -/
def switch (s : Settings) : Choice → Option Settings
  | .dump => if s.dump then none else some { s with dump := true }
  | .noRun => if s.noRun then none else some { s with noRun := true }
  | .noReport => if s.noReport then none else some { s with noReport := true }
  | _ => none

/-- Adds an input. -/
def addInput (s : Settings) (path : String) : Option Settings :=
  if path.isEmpty then none else some { s with inputs := s.inputs ++ [path] }

/-- Adds inputs. -/
def addInputs (s : Settings) : List String → Option Settings
  | [] => some s
  | path :: paths => (s.addInput path).bind (·.addInputs paths)

end Settings

/-- What an argument is by itself. -/
inductive Argument where
  /-- An input. -/
  | input (path : String)
  /-- The end of the options. -/
  | stop
  /-- An option, with the value that is attached to it. -/
  | option (choice : Choice) (attached : Option String)
  /-- Something that looks like an option and is none. -/
  | unknown
deriving DecidableEq, Repr

/-- The name of an option, and the value behind an equals sign. -/
def splitValue (cs : List Char) : String × Option String :=
  let name := String.ofList (cs.takeWhile (· ≠ '='))
  match cs.dropWhile (· ≠ '=') with
  | [] => (name, none)
  | _ :: value => (name, some (String.ofList value))

/-- The value behind a letter, if there is anything. An equals sign in front of it does not belong
to it. -/
def attachedTo : List Char → Option String
  | [] => none
  | '=' :: cs => some (String.ofList cs)
  | cs => some (String.ofList cs)

/-- What an argument is by itself. A letter that stands for an option without a value may have
others behind it, which come too late. -/
def Argument.of (arg : String) : Argument :=
  match arg.toList with
  | ['-', '-'] => .stop
  | '-' :: '-' :: cs =>
    let (name, attached) := splitValue cs
    match Choice.all.find? (·.name == name) with
    | some choice => .option choice attached
    | none => .unknown
  | '-' :: c :: cs =>
    match Choice.ofLetter? c with
    | some choice => .option choice (if choice.hasValue then attachedTo cs else none)
    | none => .unknown
  | _ => .input arg

/-- What the command line asks for. -/
inductive Request where
  /-- To go through the sources. -/
  | go (s : Settings)
  /-- To tell how it is used. -/
  | help
  /-- To tell the version. -/
  | version
  /-- Nothing that can be made out. -/
  | misuse
deriving DecidableEq, Repr

/-- Goes on with settings, if there are any. -/
def Request.andThen (s : Option Settings) (next : Settings → Request) : Request :=
  match s with
  | some s => next s
  | none => .misuse

/-- What arguments ask for, in addition to what those before them asked for. -/
def requestFrom (s : Settings) : List String → Request
  | [] => .go s
  | arg :: args =>
    match Argument.of arg with
    | .unknown => .misuse
    | .stop => Request.andThen (s.addInputs args) .go
    | .input path => Request.andThen (s.addInput path) (requestFrom · args)
    | .option choice attached =>
      if choice.hasValue then
        match attached, args with
        | some value, args => Request.andThen (s.choose value choice) (requestFrom · args)
        | none, [] => .misuse
        | none, value :: args =>
          match Argument.of value with
          | .input value => Request.andThen (s.choose value choice) (requestFrom · args)
          | _ => .misuse
      else
        match attached, choice with
        | some _, _ => .misuse
        | none, .help => .help
        | none, .version => .version
        | none, choice => Request.andThen (s.switch choice) (requestFrom · args)

/-- What the arguments of the command line ask for. -/
def request (args : List String) : Request := requestFrom {} args

end Stampline.CommandLine
