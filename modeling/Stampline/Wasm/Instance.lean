import Stampline.Wasm.Machine

/-!
# Instances

A module that is valid becomes an instance: its imports are linked to the functions of the host, its
globals are computed, and its tables and memories are filled. The function that the module names for
the start is called then, and after it the export that runs the program.
-/

namespace Stampline.Wasm

/-- The function of the host that an import asks for, if there is one of its type. -/
def Import.link (types : List FuncType) (i : Import) : Option HostFunction :=
  if i.space = hostSpace then
    HostFunction.all.find? fun f => f.name == i.name && types[i.type]? == some f.type
  else none

/-- A function of a module as the machine finds it. -/
def Func.callee (types : List FuncType) (f : Func UInt32) : Option Callee := do
  let t ← types[f.type]?
  return .code t (f.locals.flatMap fun (n, v) => List.replicate n (Value.zero v)) f.body

/-- The value that code computes before anything runs, given the operands. -/
def Constant.valueAfter (stack : List Value) : Constant → Option Value
  | [] => stack.head?
  | .const32 value :: is => valueAfter (.i32 value :: stack) is
  | .const64 value :: is => valueAfter (.i64 value :: stack) is
  | .constFloat32 bits :: is => valueAfter (.f32 bits :: stack) is
  | .constFloat64 bits :: is => valueAfter (.f64 bits :: stack) is
  | .refNull type :: is => valueAfter (.zero type :: stack) is
  | .refFunc func :: is => valueAfter (.func (some func) :: stack) is
  | .numeric op :: is =>
    match op.apply stack with
    | some (.ok v, rest) => valueAfter (v :: rest) is
    | _ => none
  | _ => none

/-- The value that code computes before anything runs. -/
def Constant.value? (c : Constant) : Option Value := c.valueAfter []

/-- Where a segment goes that is placed in the memory or the table of an index before anything
runs. -/
def SegmentMode.place? (index : Nat) : SegmentMode → Option Nat
  | .active target offset =>
    if target = index then (Constant.value? offset).bind Value.unsigned? else none
  | _ => none

/-- A memory of a module with its segments in place, unless one reaches beyond it. -/
def Module.memory? (m : Module) (index : Nat) (limits : Limits) : Option Memory :=
  Memory.ofSegments? limits
    (m.data.filterMap fun s => (s.mode.place? index).map (·, s.bytes))

/-- A table with values set, unless they reach beyond it. -/
def Table.place? (t : Table) (start : Nat) (values : List Value) : Option Table :=
  if t.covers start values.length then some (t.write start values) else none

/-- A table of a module with its segments in place, unless one reaches beyond it. The segments are
given with their references. -/
def TableType.table? (segments : List (SegmentMode × List Value)) (index : Nat) (t : TableType) :
    Option Table :=
  (segments.filterMap fun s => (s.1.place? index).map (·, s.2)).foldlM
    (fun t s => t.place? s.1 s.2) (Table.ofType t)

/-- What is left for code of a segment. -/
def SegmentMode.left {α : Type} (mode : SegmentMode) (items : List α) : List α :=
  match mode with
  | .passive => items
  | _ => []

/-- The index of an export of the given name and kind. -/
def Module.exported? (m : Module) (name : String) (kind : ExportKind) : Option Nat :=
  (m.exports.find? fun e => e.name == name && e.kind == kind).map (·.index)

/-- The instance of a module and its state at first, if its imports can be linked and its segments
fit. -/
def Module.instantiate (m : Module) (env : Environment) : Option (Instance × State) := do
  let hosts ← m.imports.mapM (Import.link m.types)
  let codes ← m.funcs.mapM (Func.callee m.types)
  let globals ← m.globals.mapM fun g => g.value.value?
  let elems ← m.elems.mapM fun s => do return (s.mode, ← s.items.mapM Constant.value?)
  let tables ← m.tables.zipIdx.mapM fun (t, i) => t.table? elems i
  let memories ← m.memories.zipIdx.mapM fun (l, i) => m.memory? i l
  let callees := hosts.map Callee.host ++ codes
  return (⟨m.types, callees.toArray, m.exported? memoryName .memory⟩,
    { env
      globals := globals.toArray
      tables := tables.toArray
      memories := memories.toArray
      elems := (elems.map fun s => s.1.left s.2).toArray
      data := (m.data.map fun s => s.mode.left s.bytes).toArray })

/-- How the run of a program ends. -/
inductive Ending where
  /-- It runs to its end, or to a fault. -/
  | ended (fault : Option Fault) (env : Environment)
  /-- It cannot be run. -/
  | refused (env : Environment)
  /-- There was not enough fuel to tell. -/
  | unfinished

/-- Calls a function without arguments, if there is one to call. -/
def Instance.callFirst (inst : Instance) (fuel : Nat) (func : Option Nat) (s : State) : Outcome :=
  match func with
  | none => .next ⟨[], #[], s⟩
  | some func => invoke inst fuel .full func ⟨[], #[], s⟩

/-- The export that runs the program of a module, if it is a function that neither takes nor leaves
anything. -/
def Module.program? (m : Module) : Option Nat := do
  let func ← m.exported? runName .func
  let types ← m.funcTypes?
  if types[func]? = some ⟨[], []⟩ then func else none

/-- Runs the program of a module. A module is refused if it is not valid, if it cannot be
instantiated, if the function for the start faults, or if there is no program. -/
def Module.run (m : Module) (fuel : Nat) (env : Environment) : Ending :=
  if !m.check then .refused env
  else
    match m.instantiate env with
    | none => .refused env
    | some (inst, s) =>
      match inst.callFirst fuel m.start s with
      | .next c =>
        match m.program? with
        | none => .refused c.env
        | some func =>
          match invoke inst fuel .full func ⟨[], #[], c.state⟩ with
          | .next c => .ended none c.env
          | .fault f env => .ended (some f) env
          | .unfinished => .unfinished
          | _ => .refused c.env
      | .fault _ env => .refused env
      | .unfinished => .unfinished
      | _ => .refused env

end Stampline.Wasm
