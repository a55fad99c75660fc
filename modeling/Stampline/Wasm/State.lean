import Stampline.Wasm.Memory
import Stampline.Wasm.Table

/-!
# States

What running code acts on, how it ends, and how much room it has. A state is what all functions of
an instance share; a configuration adds what belongs to the frame of one function.
-/

namespace Stampline.Wasm

/-- What the functions of an instance share. -/
structure State where
  /-- The environment. -/
  env : Environment
  /-- The globals of the module. -/
  globals : Array Value := #[]
  /-- The tables. -/
  tables : Array Table := #[]
  /-- The memories. -/
  memories : Array Memory := #[]
  /-- What is left of the segments of references. -/
  elems : Array (List Value) := #[]
  /-- What is left of the segments of bytes. -/
  data : Array (List UInt8) := #[]

namespace State

/-- Writes to a memory. -/
def writeMemory (s : State) (memory start : Nat) (bytes : List UInt8) : State :=
  { s with memories := s.memories.modify memory (·.write start bytes) }

/-- Sets entries of a table. -/
def writeTable (s : State) (table start : Nat) (values : List Value) : State :=
  { s with tables := s.tables.modify table (·.write start values) }

end State

/-- What running code acts on. -/
structure Config where
  /-- The operands, the topmost first. -/
  stack : List Value
  /-- The locals of the current frame. -/
  locals : Array Value
  /-- What it shares with other functions. -/
  state : State

namespace Config

/-- The environment. -/
def env (c : Config) : Environment := c.state.env

/-- The configuration with another environment and other operands. -/
def withEnv (c : Config) (stack : List Value) (env : Environment) : Config :=
  { c with stack, state := { c.state with env } }

end Config

/-- How running code ends. -/
inductive Outcome where
  /-- It falls through. -/
  | next (c : Config)
  /-- It branches to a label. -/
  | branch (depth : Nat) (c : Config)
  /-- It leaves the function. -/
  | leave (c : Config)
  /-- It leaves the function by calling another one, with the operands as arguments. -/
  | tail (func : Nat) (c : Config)
  /-- It faults; what happened before stays. -/
  | fault (f : Fault) (env : Environment)
  /-- It cannot go on, since it is not well typed. -/
  | stuck
  /-- There was not enough fuel to tell. -/
  | unfinished

/-- The most locals of a function that can be told apart. -/
def maxSlots : Nat := 30000

/-- How many functions may be live at once, and how many locals and operands they may have
together. -/
structure Room where
  /-- The number of functions. -/
  frames : Nat
  /-- The number of locals and operands. -/
  cells : Nat
deriving DecidableEq, Repr

namespace Room

/-- The room that there is before anything is called. -/
def full : Room := ⟨1000, 1000000⟩

/-- The room that is left to a function with `locals` locals whose caller has `operands` operands
besides its arguments, or the fault if it cannot be entered. -/
def enter (room : Room) (operands locals : Nat) : Except Fault Room :=
  if maxSlots < locals then .error .tooManyLocals
  else
    match room.frames with
    | 0 => .error .stackExhausted
    | frames + 1 =>
      if operands + locals ≤ room.cells then .ok ⟨frames, room.cells - (operands + locals)⟩
      else .error .stackExhausted

end Room

end Stampline.Wasm
