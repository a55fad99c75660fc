import Stampline.Wasm.Step
import Stampline.Wasm.Validate
import Stampline.Host.Interface

/-!
# The machine

The machine runs code on an operand stack. A run ends normally, or with a fault that keeps what
happened before it.

The machine counts down `fuel`, which bounds the depth of its recursion and the number of rounds of
every loop; running out of fuel is an outcome of its own and is never mistaken for another. The
room for functions that are live at once is limited as well, and to exceed it is a fault. A function
that leaves by calling another one hands its room over.

Code that is not well typed gets stuck.
-/

namespace Stampline.Wasm

/-- A function as the machine finds it. -/
inductive Callee where
  /-- A function of the host. -/
  | host (f : HostFunction)
  /-- A function of the module: its type, what its further locals start with, and its body. -/
  | code (type : FuncType) (locals : List Value) (body : List (Instr UInt32))

/-- The type of a function. -/
def Callee.type : Callee → FuncType
  | host f => f.type
  | code type _ _ => type

/-- The part of a module that is ready to run and that no run changes. -/
structure Instance where
  /-- The types of functions. -/
  types : List FuncType
  /-- Its functions. -/
  callees : Array Callee
  /-- The memory that the host sees, if it sees one. -/
  memory : Option Nat

namespace Instance

/-- The memory that the host sees, if it sees one. -/
def hostMemory (inst : Instance) (s : State) : Option Memory :=
  inst.memory.bind (s.memories[·]?)

/-- The type of a block. -/
def blockType (inst : Instance) (type : BlockType) : FuncType :=
  (type.type? inst.types).getD ⟨[], []⟩

/-- The outcome of code that leaves its function by calling another one. -/
def tail (inst : Instance) (func : Nat) (c : Config) : Outcome :=
  match inst.callees[func]? with
  | some callee => .tail func { c with stack := c.stack.take callee.type.params.length }
  | none => .stuck

/-- The function of the given type at a place of a table. -/
def indirect (inst : Instance) (s : State) (type table place : Nat) : Except Fault Nat :=
  match s.tables[table]?.bind (·.get? place) with
  | none => .error .tableOutOfBounds
  | some (.func (some func)) =>
    if inst.callees[func]?.map (·.type) = inst.types[type]? then .ok func
    else .error .callMismatch
  | some _ => .error .nullCall

end Instance

/-- Calls a function of the host. -/
def HostFunction.call (f : HostFunction) (memory : Option Memory) (c : Config) : Outcome :=
  match f, c.stack with
  | .printInt, .i64 value :: stack => .next (c.withEnv stack (c.env.write (toString value.toInt)))
  | .printText, .i32 length :: .i32 start :: stack =>
    match memory with
    | none => .fault .noMemory c.env
    | some m =>
      match m.readText start.toNat length.toNat with
      | .error f => .fault f c.env
      | .ok text => .next (c.withEnv stack (c.env.write text))
  | .readGlobal, .i32 length :: .i32 start :: stack =>
    match memory with
    | none => .fault .noMemory c.env
    | some m =>
      match m.readText start.toNat length.toNat with
      | .error f => .fault f c.env
      | .ok name =>
        match c.env.global? name with
        | none => .fault (.undefinedName name) c.env
        | some value => .next { c with stack := .i64 value :: stack }
  | .writeGlobal, .i64 value :: .i32 length :: .i32 start :: stack =>
    match memory with
    | none => .fault .noMemory c.env
    | some m =>
      match m.readText start.toNat length.toNat with
      | .error f => .fault f c.env
      | .ok name => .next (c.withEnv stack (c.env.setGlobal name value))
  | _, _ => .stuck

/-- Leaves a block that was entered with the operands `below` under those it takes: a branch to its
label, which takes `count` operands, ends there, and a branch further out is one label nearer. -/
def leaveBlock (count : Nat) (below : List Value) : Outcome → Outcome
  | .branch 0 c => .next { c with stack := c.stack.take count ++ below }
  | .branch (depth + 1) c => .branch depth c
  | o => o

/-- Returns from a function with `results` results to the caller's locals and to the operands that
are not arguments. -/
def returnTo (locals : Array Value) (below : List Value) (results : Nat) : Outcome → Outcome
  | .next c | .leave c | .branch 0 c =>
    if results ≤ c.stack.length then
      .next ⟨c.stack.take results ++ below, locals, c.state⟩
    else .stuck
  | .branch _ _ => .stuck
  | o => o

mutual

/-- Runs an instruction with some room for the functions that it calls. -/
def exec (inst : Instance) (fuel : Nat) (room : Room) (i : Instr UInt32) (c : Config) : Outcome :=
  match fuel with
  | 0 => .unfinished
  | fuel + 1 =>
    match i with
    | .block type body =>
      let t := inst.blockType type
      leaveBlock t.results.length (c.stack.drop t.params.length) (execAll inst fuel room body c)
    | .loop type body =>
      let params := (inst.blockType type).params.length
      let below := c.stack.drop params
      match execAll inst fuel room body c with
      | .branch 0 after =>
        exec inst fuel room (.loop type body)
          { after with stack := after.stack.take params ++ below }
      | o => leaveBlock params below o
    | .when type body =>
      let t := inst.blockType type
      match c.stack with
      | .i32 test :: stack =>
        if test = 0 then .next { c with stack }
        else
          leaveBlock t.results.length (stack.drop t.params.length)
            (execAll inst fuel room body { c with stack })
      | _ => .stuck
    | .choose type body orelse =>
      let t := inst.blockType type
      match c.stack with
      | .i32 test :: stack =>
        leaveBlock t.results.length (stack.drop t.params.length)
          (execAll inst fuel room (if test = 0 then orelse else body) { c with stack })
      | _ => .stuck
    | .call func => invoke inst fuel room func c
    | .callIndirect type table =>
      match c.stack with
      | [] => .stuck
      | place :: stack =>
        match place.unsigned?.map (inst.indirect c.state type table) with
        | none => .stuck
        | some (.error f) => .fault f c.env
        | some (.ok func) => invoke inst fuel room func { c with stack }
    | .tailCall func => inst.tail func c
    | .tailCallIndirect type table =>
      match c.stack with
      | [] => .stuck
      | place :: stack =>
        match place.unsigned?.map (inst.indirect c.state type table) with
        | none => .stuck
        | some (.error f) => .fault f c.env
        | some (.ok func) => inst.tail func { c with stack }
    | i => step i c

/-- Runs instructions in turn. -/
def execAll (inst : Instance) (fuel : Nat) (room : Room) (is : List (Instr UInt32)) (c : Config) :
    Outcome :=
  match fuel with
  | 0 => .unfinished
  | fuel + 1 =>
    match is with
    | [] => .next c
    | i :: is =>
      match exec inst fuel room i c with
      | .next c => execAll inst fuel room is c
      | o => o

/-- Calls a function with arguments from the operand stack. -/
def invoke (inst : Instance) (fuel : Nat) (room : Room) (func : Nat) (c : Config) : Outcome :=
  match fuel with
  | 0 => .unfinished
  | fuel + 1 =>
    match inst.callees[func]? with
    | none => .stuck
    | some (.host f) => HostFunction.call f (inst.hostMemory c.state) c
    | some (.code type locals body) =>
      let params := type.params.length
      if c.stack.length < params then .stuck
      else
        let below := c.stack.drop params
        match room.enter below.length (params + locals.length) with
        | .error f => .fault f c.env
        | .ok inner =>
          let args := (c.stack.take params).reverse
          match execAll inst fuel inner body ⟨[], (args ++ locals).toArray, c.state⟩ with
          | .tail func after =>
            invoke inst fuel room func ⟨after.stack ++ below, c.locals, after.state⟩
          | o => returnTo c.locals below type.results.length o

end

end Stampline.Wasm
