import Stampline.CommandLine.Session

/-!
# The program

A call of the program reads its arguments, then all its sources, then goes through the sources one
by one, and at last writes the module of the last of them if that was asked for. The first failure
ends it.

The program reaches the world around it through the operations of `World` only. `Desk` is a world
that is a value, in which the program is a function.
-/

namespace Stampline.CommandLine

/-- What the program can do in the world around it. -/
structure World (m : Type → Type) where
  /-- Reads standard input to its end. -/
  readInput : m (List UInt8)
  /-- Looks at what is at a path. -/
  look : String → m (Except FileFault Entry)
  /-- Makes the directory at a path and those above it as far as they are missing. -/
  makeDirectories : String → m (Except FileFault Unit)
  /-- Writes a file. -/
  writeFile : String → List UInt8 → m (Except FileFault Unit)
  /-- The clock that sources are stamped by. -/
  clock : m Clock
  /-- Writes to standard output. -/
  print : String → m Unit
  /-- Writes to the error output. -/
  complain : String → m Unit

/-- How a call of the program ends. -/
inductive Exit where
  | success | failure | misuse
  /-- There was not enough fuel to tell. -/
  | unfinished
deriving DecidableEq, Repr

/-- The exit status. -/
def Exit.code : Exit → UInt32
  | success => 0
  | failure => 1
  | misuse => 2
  | unfinished => 3

section

variable {m : Type → Type} [Monad m]

namespace World

/-- The sources at the given paths. There is a warning for every path that has none. -/
def readInputs (world : World m) : List String → m (Except Failure (List SourceFile))
  | [] => return .ok []
  | path :: paths => do
    let found := (← world.look path).bind (·.load path)
    match found with
    | .error fault =>
      return .error ⟨s!"failed to read input {path}", causesOf (.unreadable fault)⟩
    | .ok sources => do
      if sources.isEmpty then world.complain (nothingFound path)
      match (← world.readInputs paths) with
      | .error f => return .error f
      | .ok rest => return .ok (sources ++ rest)

/-- The sources that the settings ask for. -/
def readSources (world : World m) (settings : Settings) : m (Except Failure (List SourceFile)) :=
  match settings.inputs with
  | [] => do
    match SourceFile.ofBytes "<stdin>" (← world.readInput) with
    | .ok source => return .ok [source]
    | .error fault => return .error ⟨"failed to read stdin", [fault.message]⟩
  | paths => world.readInputs paths

/-- Gives sources their turns until one fails. -/
def takeTurns (world : World m) (settings : Settings) (fuel : Nat) :
    List SourceFile → Session → m Turn
  | [], s => return .done s
  | source :: sources, s => do
    let (printed, turn) := (s.withClock (← world.clock)).turn settings fuel source
    world.print printed
    match turn with
    | .done s => world.takeTurns settings fuel sources s
    | turn => return turn

/-- Writes a module to a path. The directory that holds it is made if it is missing. -/
def writeModule (world : World m) (path : String) (bytes : List UInt8) :
    m (Except Failure Unit) := do
  let directory := (Path.parent? path).getD ""
  let made ← if directory.isEmpty then pure (.ok ()) else world.makeDirectories directory
  match made with
  | .error fault =>
    return .error ⟨s!"failed to create directory {Text.quoted directory}", [fault.message]⟩
  | .ok () =>
    match (← world.writeFile path bytes) with
    | .error fault => return .error ⟨s!"failed to write output file {path}", [fault.message]⟩
    | .ok () => return .ok ()

/-- Writes the module of the last source where the settings ask for it. -/
def writeLatest (world : World m) (settings : Settings) (s : Session) : m (Except Failure Unit) :=
  match settings.output?, s.latest with
  | none, _ => return .ok ()
  | some _, none => return .error ⟨"no input was compiled, nothing to write", []⟩
  | some path, some bytes => world.writeModule path bytes

/-- Reports a failure. -/
def fail (world : World m) (f : Failure) : m Exit := do
  world.complain f.text
  return .failure

/-- Does what settings ask for. -/
def go (world : World m) (fuel : Nat) (settings : Settings) : m Exit := do
  match (← world.readSources settings) with
  | .error f => world.fail f
  | .ok sources =>
    match Pipeline.new settings.stampOptions (← world.clock) with
    | .error e => world.fail ⟨"invalid timestamp configuration", causesOf e⟩
    | .ok pipeline =>
      match (← world.takeTurns settings fuel sources { pipeline }) with
      | .unfinished => return .unfinished
      | .failed f => world.fail f
      | .done s =>
        match (← world.writeLatest settings s) with
        | .error f => world.fail f
        | .ok () => return .success

/-- Runs the program with the given arguments. -/
def run (world : World m) (fuel : Nat) (args : List String) : m Exit :=
  match request args with
  | .go settings => world.go fuel settings
  | .help => do
    world.print helpText
    return .success
  | .version => do
    world.print versionText
    return .success
  | .misuse => do
    world.complain misuseText
    return .misuse

end World

end

/-! ## A world that is a value -/

/-- All that the program can reach. -/
structure Desk where
  /-- The files. -/
  disk : Disk := {}
  /-- What standard input holds. -/
  input : List UInt8 := []
  /-- The clock. -/
  clock : Clock := .still default
  /-- What was written to standard output. -/
  printed : String := ""
  /-- What was written to the error output. -/
  complaints : String := ""

/-- The operations of the program on a desk. -/
def Desk.world : World (StateM Desk) where
  readInput := fun d => (d.input, { d with input := [] })
  look := fun path d => (d.disk.look path, d)
  makeDirectories := fun path d =>
    let (result, disk) := d.disk.makeDirectories path
    (result, { d with disk })
  writeFile := fun path bytes d =>
    match d.disk.writeFile path bytes with
    | .error fault => (.error fault, d)
    | .ok disk => (.ok (), { d with disk })
  clock := fun d => (d.clock, d)
  print := fun text d => ((), { d with printed := d.printed ++ text })
  complain := fun text d => ((), { d with complaints := d.complaints ++ text })

/-- How a call of the program ends on a desk, and how it leaves the desk. -/
def Desk.run (d : Desk) (fuel : Nat) (args : List String) : Exit × Desk :=
  (Desk.world.run fuel args).run d

end Stampline.CommandLine
