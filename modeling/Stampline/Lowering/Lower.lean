import Stampline.Lowering.Pool
import Stampline.Syntax.Locate

/-!
# Lowering a program

A program becomes a module that imports the functions of the host, has a function for every
definition and one more, exported, for the statements at the level of the program, and exports a
memory that holds every text it needs.

The types of the imports come first. Functions with equally many parameters share a type.
-/

namespace Stampline

open Wasm (ValueType FuncType Func Module)

/-- Why a program cannot be lowered. -/
inductive LowerError where
  /-- A node has no span. -/
  | unlocated (kind : NodeKind)
  /-- The program breaks a rule. -/
  | complaint (c : Complaint)
deriving DecidableEq, Repr

/-- The numbers of parameters that functions have, each of them once, in order of appearance. -/
def aritiesAfter (before : List Nat) : List Function → List Nat
  | [] => before
  | f :: fs =>
    if before.contains f.params.length then aritiesAfter before fs
    else aritiesAfter (before ++ [f.params.length]) fs

/-- The type of a function with `arity` parameters. -/
def typeOfArity (arity : Nat) : FuncType := ⟨List.replicate arity .i64, [.i64]⟩

/-- The locals of code that uses `slots` slots of which `params` hold parameters. -/
def extraLocals (params slots : Nat) : List (Nat × ValueType) :=
  if params < slots then [(slots - params, .i64)] else []

/-- The functions of a module, with texts referred to by their contents: those that the program
defines and the one that runs it. -/
def Program.code (p : Program) : Except Complaint (List (Func TextPart)) := do
  let arities := aritiesAfter [] p.functions
  let defined ← p.functions.mapM fun f => do
    let (body, slots) ← f.emit p.functions
    let arity := f.params.length
    return ⟨HostFunction.count + arities.idxOf arity, extraLocals arity slots, body⟩
  let (body, slots) ← p.emit
  return defined ++ [⟨HostFunction.count + arities.length, extraLocals 0 slots, body⟩]

/-- The texts of functions. -/
def poolOf (code : List (Func TextPart)) : TextPool := .ofCode (code.flatMap (·.body))

/-- The module that consists of `code`, with texts resolved. `arities` are the numbers of parameters
of its functions. -/
def assemble (arities : List Nat) (code : List (Func TextPart)) : Module :=
  let pool := poolOf code
  let hosts := HostFunction.all
  { types := hosts.map (·.type) ++ arities.map typeOfArity ++ [⟨[], []⟩]
    imports := hosts.map fun f => ⟨hostSpace, f.name, f.index⟩
    funcs := code.map (·.map pool.resolve)
    memories := [pool.limits]
    exports := [⟨runName, .func, HostFunction.count + code.length - 1⟩, ⟨memoryName, .memory, 0⟩]
    data := pool.segments }

/-- The module that a program is lowered to. -/
def Program.lower (p : Program) : Except LowerError Module :=
  match p.firstUnlocated? with
  | some kind => .error (.unlocated kind)
  | none =>
    match checkDefinitionsIn true [] p with
    | .error c => .error (.complaint c)
    | .ok () =>
      match p.code with
      | .error c => .error (.complaint c)
      | .ok code => .ok (assemble (aritiesAfter [] p.functions) code)

end Stampline
