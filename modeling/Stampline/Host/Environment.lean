import Stampline.Bindings

/-!
# Environments

What outlives the run of a program: the globals and the output. Programs run one after the other in
one environment, and each of them sees the globals that those before it left.
-/

namespace Stampline

/-- Why the run of a program stops short. -/
inductive Fault where
  | divisionByZero
  | overflow
  /-- Something that is not a number was to be an integer. -/
  | badConversion
  | unreachable
  | stackExhausted
  /-- A function has more locals than can be told apart. -/
  | tooManyLocals
  /-- An address lies outside the memory. -/
  | memoryOutOfBounds
  /-- A place lies outside the table. -/
  | tableOutOfBounds
  /-- A reference to nothing was to be called. -/
  | nullCall
  /-- A function of another type was to be called. -/
  | callMismatch
  | undefinedName (name : String)
  | noMemory
  | textOutOfBounds
  | malformedText
deriving DecidableEq, Repr

/-- The wording of a fault. -/
def Fault.message : Fault → String
  | divisionByZero => "integer divide by zero"
  | overflow => "integer overflow"
  | badConversion => "invalid conversion to integer"
  | unreachable => "wasm `unreachable` instruction executed"
  | stackExhausted => "call stack exhausted"
  | tooManyLocals => "encountered function with too many function parameters"
  | memoryOutOfBounds => "out of bounds memory access"
  | tableOutOfBounds => "undefined element: out of bounds table access"
  | nullCall => "uninitialized element 2"
  | callMismatch => "indirect call type mismatch"
  | undefinedName name => s!"name '{name}' is not defined"
  | noMemory => "module does not export its memory"
  | textOutOfBounds => "string data out of bounds"
  | malformedText => "string data is not UTF-8"

/-- Where the output of programs goes. -/
inductive Sink where
  /-- To standard output, beyond recall. -/
  | standard
  /-- Into a text that can be taken from the environment. -/
  | captured
deriving DecidableEq, Repr

/-- The state that programs share. -/
structure Environment where
  /-- The globals. -/
  globals : Bindings := ∅
  /-- Where output goes. -/
  sink : Sink := .captured
  /-- The output since the start, or since it was last taken. -/
  output : String := ""
deriving DecidableEq, Repr, Inhabited

namespace Environment

/-- Adds to the output. -/
def write (env : Environment) (text : String) : Environment :=
  { env with output := env.output ++ text }

/-- Binds a global name. -/
def setGlobal (env : Environment) (name : String) (value : Int64) : Environment :=
  { env with globals := env.globals.set name value }

/-- The value of a global name. -/
def global? (env : Environment) (name : String) : Option Int64 := env.globals.get? name

/-- Takes the captured output out of the environment. Output to standard output cannot be taken. -/
def takeOutput (env : Environment) : String × Environment :=
  match env.sink with
  | .standard => ("", env)
  | .captured => (env.output, { env with output := "" })

end Environment

end Stampline
