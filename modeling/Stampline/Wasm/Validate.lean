import Stampline.Wasm.Basic

/-!
# Valid modules

A module is checked before it runs. Code is checked against the types of the values on the operand
stack; behind an instruction that never falls through, the stack is open at the bottom and yields
whatever is asked of it. A value that was yielded there without being asked for has no known type.
-/

namespace Stampline.Wasm

/-- The most parameters, and the most results, that a function type may have. -/
def maxParams : Nat := 1000

/-- The most locals a function may have, parameters among them. -/
def maxLocals : Nat := 50000

/-- The most tables, and the most memories, that a module may have. -/
def maxTables : Nat := 100

/-- The most entries that a table may have at first. -/
def maxEntries : Nat := 10000000

/-- What is known of the operand stack at a point of the code. -/
structure Operands where
  /-- The types on top, the topmost first, as far as they are known. -/
  known : List (Option ValueType) := []
  /-- Whether anything at all may lie below them. -/
  isOpen : Bool := false
deriving DecidableEq, Repr

namespace Operands

/-- The operands that have the given types, from the bottom upwards. -/
def ofTypes (ts : List ValueType) : Operands := ⟨(ts.map some).reverse, false⟩

/-- The operands without the topmost, which has to have type `t`. -/
def pop (t : ValueType) (s : Operands) : Option Operands :=
  match s.known with
  | some u :: rest => if u = t then some { s with known := rest } else none
  | none :: rest => some { s with known := rest }
  | [] => if s.isOpen then some s else none

/-- The type of the topmost operand, if it is known, and the operands without it. -/
def popAny (s : Operands) : Option (Option ValueType × Operands) :=
  match s.known with
  | t :: rest => some (t, { s with known := rest })
  | [] => if s.isOpen then some (none, s) else none

/-- The operands without those on top, of the types `ts` from the top downwards. -/
def popAll : List ValueType → Operands → Option Operands
  | [], s => some s
  | t :: ts, s => (s.pop t).bind (popAll ts)

/-- The operands with one more on top. -/
def push (t : ValueType) (s : Operands) : Operands := { s with known := some t :: s.known }

/-- The operands with more on top, the last of `ts` topmost. -/
def pushAll (ts : List ValueType) (s : Operands) : Operands :=
  { s with known := (ts.map some).reverse ++ s.known }

/-- The operands behind an instruction that never falls through. -/
def unreachable : Operands := ⟨[], true⟩

/-- Whether the operands are what a body has to leave, given from the bottom upwards. -/
def leaves (ts : List ValueType) (s : Operands) : Bool :=
  match s.popAll ts.reverse with
  | some ⟨[], _⟩ => true
  | _ => false

/-- The operands behind an instruction that takes some operands and leaves others, both given from
the bottom upwards. -/
def pass (params results : List ValueType) (s : Operands) : Option Operands :=
  (s.popAll params.reverse).map (pushAll results)

/-- The operands behind one that keeps one of two operands, both of them numbers. -/
def select (s : Operands) : Option Operands := do
  let s ← s.pop .i32
  let (t, s) ← s.popAny
  let (u, s) ← s.popAny
  let isNumber (t : Option ValueType) : Bool := t.all (!·.isRef)
  if !(isNumber t && isNumber u) then none
  match t, u with
  | some t, some u => if t = u then some (s.push t) else none
  | some t, none | none, some t => some (s.push t)
  | none, none => some { s with known := none :: s.known }

end Operands

/-- What code may refer to. -/
structure Context where
  /-- The types of functions. -/
  types : List FuncType
  /-- The types of all functions, the imported ones first. -/
  funcs : List FuncType
  /-- The tables. -/
  tables : List TableType := []
  /-- The memories. -/
  memories : List Limits := []
  /-- The globals. -/
  globals : List Global := []
  /-- The types of the segments of references. -/
  elems : List ValueType := []
  /-- The number of the segments of bytes, if it is known before the code. -/
  dataCount : Option Nat := none
  /-- The functions that there may be references to. -/
  referable : List Nat := []
  /-- The types of the locals, in runs. -/
  locals : List (Nat × ValueType) := []
  /-- What the function leaves. -/
  results : List ValueType := []

/-- The type of a slot among runs of locals. -/
def slotType? : List (Nat × ValueType) → Nat → Option ValueType
  | [], _ => none
  | (n, t) :: runs, slot => if slot < n then some t else slotType? runs (slot - n)

/-- The number of slots in runs of locals. -/
def slotCount : List (Nat × ValueType) → Nat
  | [] => 0
  | (n, _) :: runs => n + slotCount runs

/-- The type of a block as a function type. -/
def BlockType.type? (types : List FuncType) : BlockType → Option FuncType
  | .none => some ⟨[], []⟩
  | .value t => some ⟨[], [t]⟩
  | .func type => types[type]?

/-- The type of addresses in a memory to which a place in memory may belong. -/
def Context.address? (ctx : Context) (access : Access) (place : MemArg) : Option ValueType := do
  let limits ← ctx.memories[place.memory]?
  let isNear := limits.wide || decide (place.offset < 0x100000000)
  if isNear && decide (Nat.pow 2 place.align ≤ access.bytes) then limits.address else none

/-- The type of the numbers of things that are counted from one place to another. -/
def lengthType (a b : Limits) : ValueType := if a.wide && b.wide then .i64 else .i32

variable {ι : Type}

/-- The operands after an instruction that refers to a table, if it is well typed. -/
def checkTable (ctx : Context) : Instr ι → Operands → Option Operands
  | .tableGet table, s => do
    let t ← ctx.tables[table]?
    s.pass [t.limits.address] [t.entry]
  | .tableSet table, s => do
    let t ← ctx.tables[table]?
    s.pass [t.limits.address, t.entry] []
  | .tableSize table, s => do
    let t ← ctx.tables[table]?
    s.pass [] [t.limits.address]
  | .tableGrow table, s => do
    let t ← ctx.tables[table]?
    s.pass [t.entry, t.limits.address] [t.limits.address]
  | .tableFill table, s => do
    let t ← ctx.tables[table]?
    s.pass [t.limits.address, t.entry, t.limits.address] []
  | .tableCopy target source, s => do
    let t ← ctx.tables[target]?
    let u ← ctx.tables[source]?
    if t.entry = u.entry then
      s.pass [t.limits.address, u.limits.address, lengthType t.limits u.limits] []
    else none
  | .tableInit segment table, s => do
    let t ← ctx.tables[table]?
    let u ← ctx.elems[segment]?
    if t.entry = u then s.pass [t.limits.address, .i32, .i32] [] else none
  | .elemDrop segment, s => do
    let _ ← ctx.elems[segment]?
    return s
  | _, _ => none

/-- The operands after an instruction that refers to a memory, if it is well typed. -/
def checkMemory (ctx : Context) : Instr ι → Operands → Option Operands
  | .load access place, s => do
    s.pass [← ctx.address? access place] [access.type]
  | .store access place, s => do
    s.pass [← ctx.address? access place, access.type] []
  | .memorySize memory, s => do
    let m ← ctx.memories[memory]?
    s.pass [] [m.address]
  | .memoryGrow memory, s => do
    let m ← ctx.memories[memory]?
    s.pass [m.address] [m.address]
  | .memoryFill memory, s => do
    let m ← ctx.memories[memory]?
    s.pass [m.address, .i32, m.address] []
  | .memoryCopy target source, s => do
    let m ← ctx.memories[target]?
    let n ← ctx.memories[source]?
    s.pass [m.address, n.address, lengthType m n] []
  | .memoryInit segment memory, s => do
    let m ← ctx.memories[memory]?
    if ctx.dataCount.any (segment < ·) then s.pass [m.address, .i32, .i32] [] else none
  | .dataDrop segment, s => if ctx.dataCount.any (segment < ·) then some s else none
  | i, s => checkTable ctx i s

/-- The type of a function that may be called through a table, and that of its places. -/
def Context.indirect? (ctx : Context) (type table : Nat) : Option (FuncType × ValueType) := do
  let t ← ctx.tables[table]?
  if t.entry = .funcRef then return (← ctx.types[type]?, t.limits.address) else none

/-- The operands after an instruction that has no body, inside blocks whose labels take the given
types, if it is well typed. -/
def checkPlain (ctx : Context) (labels : List (List ValueType)) :
    Instr ι → Operands → Option Operands
  | .unreachable, _ => some .unreachable
  | .nop, s => some s
  | .br depth, s => do
    let ts ← labels[depth]?
    let _ ← s.popAll ts.reverse
    return .unreachable
  | .brIf depth, s => do
    let s ← s.pop .i32
    let ts ← labels[depth]?
    s.pass ts ts
  | .brTable depths last, s => do
    let s ← s.pop .i32
    let ts ← labels[last]?
    let fits (depth : Nat) : Bool :=
      labels[depth]?.any fun us => us.length == ts.length && (s.popAll us.reverse).isSome
    if depths.all fits && (s.popAll ts.reverse).isSome then return .unreachable else none
  | .ret, s => do
    let _ ← s.popAll ctx.results.reverse
    return .unreachable
  | .call func, s => do
    let t ← ctx.funcs[func]?
    s.pass t.params t.results
  | .callIndirect type table, s => do
    let (t, address) ← ctx.indirect? type table
    let s ← s.pop address
    s.pass t.params t.results
  | .tailCall func, s => do
    let t ← ctx.funcs[func]?
    let _ ← s.popAll t.params.reverse
    if t.results = ctx.results then return .unreachable else none
  | .tailCallIndirect type table, s => do
    let (t, address) ← ctx.indirect? type table
    let s ← s.pop address
    let _ ← s.popAll t.params.reverse
    if t.results = ctx.results then return .unreachable else none
  | .drop, s => s.popAny.map (·.2)
  | .select none, s => s.select
  | .select (some t), s => s.pass [t, t, .i32] [t]
  | .localGet slot, s => do
    let t ← slotType? ctx.locals slot
    return s.push t
  | .localSet slot, s => do
    let t ← slotType? ctx.locals slot
    s.pop t
  | .localTee slot, s => do
    let t ← slotType? ctx.locals slot
    s.pass [t] [t]
  | .globalGet index, s => do
    let g ← ctx.globals[index]?
    return s.push g.type
  | .globalSet index, s => do
    let g ← ctx.globals[index]?
    if g.isMutable then s.pop g.type else none
  | .const32 _, s => some (s.push .i32)
  | .const64 _, s => some (s.push .i64)
  | .constFloat32 _, s => some (s.push .f32)
  | .constFloat64 _, s => some (s.push .f64)
  | .numeric op, s => s.pass op.params [op.result]
  | .refNull t, s => some (s.push t)
  | .refIsNull, s => do
    let (t, s) ← s.popAny
    if t.all (·.isRef) then return s.push .i32 else none
  | .refFunc func, s =>
    if ctx.referable.contains func && decide (func < ctx.funcs.length) then some (s.push .funcRef)
    else none
  | i, s => checkMemory ctx i s

/-- Whether the body of a block that leaves the given types is well typed, with these operands at
its end. -/
def endsWith (results : List ValueType) (s : Option Operands) : Bool := s.any (·.leaves results)

mutual

/-- The operands after an instruction inside blocks whose labels take the given types, the innermost
first, if it is well typed. -/
def checkInstr (ctx : Context) (labels : List (List ValueType)) :
    Instr ι → Operands → Option Operands
  | .block type body, s => do
    let t ← type.type? ctx.types
    if endsWith t.results (checkInstrs ctx (t.results :: labels) body (.ofTypes t.params)) then
      s.pass t.params t.results
    else none
  | .loop type body, s => do
    let t ← type.type? ctx.types
    if endsWith t.results (checkInstrs ctx (t.params :: labels) body (.ofTypes t.params)) then
      s.pass t.params t.results
    else none
  | .when type body, s => do
    let t ← type.type? ctx.types
    let s ← s.pop .i32
    if t.params = t.results ∧
        endsWith t.results (checkInstrs ctx (t.results :: labels) body (.ofTypes t.params)) then
      s.pass t.params t.results
    else none
  | .choose type body orelse, s => do
    let t ← type.type? ctx.types
    let s ← s.pop .i32
    if endsWith t.results (checkInstrs ctx (t.results :: labels) body (.ofTypes t.params)) &&
        endsWith t.results (checkInstrs ctx (t.results :: labels) orelse (.ofTypes t.params)) then
      s.pass t.params t.results
    else none
  | i, s => checkPlain ctx labels i s

/-- The operands after instructions, if they are well typed. -/
def checkInstrs (ctx : Context) (labels : List (List ValueType)) :
    List (Instr ι) → Operands → Option Operands
  | [], s => some s
  | i :: is, s => do
    let s ← checkInstr ctx labels i s
    checkInstrs ctx labels is s

end

/-- Whether a function is well typed in a module of which `ctx` is known. -/
def Func.check (ctx : Context) (f : Func ι) : Bool :=
  match ctx.types[f.type]? with
  | none => false
  | some t =>
    let runs := t.params.map (fun p => (1, p)) ++ f.locals
    let ctx := { ctx with locals := runs, results := t.results }
    decide (slotCount runs ≤ maxLocals) &&
      endsWith t.results (checkInstrs ctx [t.results] f.body {})

/-- Whether an instruction can be computed before anything runs. -/
def Instr.isConstant : Instr ι → Bool
  | .const32 _ | .const64 _ | .constFloat32 _ | .constFloat64 _ | .refNull _ | .refFunc _ => true
  | .numeric (.arith _ op) => op = .add || op = .sub || op = .mul
  | _ => false

/-- Whether code computes a value of the given type before anything runs. -/
def Constant.check (ctx : Context) (t : ValueType) (c : Constant) : Bool :=
  c.all Instr.isConstant && endsWith [t] (checkInstrs ctx [] c {})

/-- The functions that code computed before anything runs refers to. -/
def Constant.refers (c : Constant) : List Nat :=
  c.filterMap fun
    | .refFunc func => some func
    | _ => none

/-- The types of all functions of a module, if every one of them has a type. -/
def Module.funcTypes? (m : Module) : Option (List FuncType) :=
  (m.imports.map (·.type) ++ m.funcs.map (·.type)).mapM (m.types[·]?)

/-- Whether the size of something that can have at most `most` parts is admissible. -/
def Limits.check (most : Nat) (l : Limits) : Bool :=
  decide (l.min ≤ most) &&
    match l.max with
    | none => true
    | some max => decide (l.min ≤ max) && decide (max ≤ most)

/-- Whether a table is admissible. -/
def TableType.check (t : TableType) : Bool :=
  decide (t.limits.min ≤ maxEntries) && t.limits.max.all (decide <| t.limits.min ≤ ·)

/-- Whether an export refers to something that is there. -/
def Export.check (ctx : Context) (e : Export) : Bool :=
  match e.kind with
  | .func => decide (e.index < ctx.funcs.length)
  | .table => decide (e.index < ctx.tables.length)
  | .memory => decide (e.index < ctx.memories.length)
  | .global => decide (e.index < ctx.globals.length)

/-- Whether a segment of references is well typed. -/
def ElemSegment.check (ctx : Context) (s : ElemSegment) : Bool :=
  s.items.all (Constant.check ctx s.type) &&
    match s.mode with
    | .active table offset =>
      match ctx.tables[table]? with
      | some t => decide (t.entry = s.type) && offset.check ctx t.limits.address
      | none => false
    | _ => true

/-- Whether a segment of bytes is well typed. -/
def Segment.check (ctx : Context) (s : Segment) : Bool :=
  match s.mode with
  | .active memory offset =>
    match ctx.memories[memory]? with
    | some l => offset.check ctx l.address
    | none => false
  | _ => true

/-- The functions that a module lets code refer to: those that it exports, and those that its
globals and its segments refer to. -/
def Module.referable (m : Module) : List Nat :=
  (m.exports.filter fun e => e.kind = .func).map (·.index) ++
    m.globals.flatMap (·.value.refers) ++ (m.elems.flatMap (·.items)).flatMap Constant.refers

/-- What code computed before anything runs may refer to: all functions, but no globals, since those
that it could refer to are imported. -/
def Context.beforehand (ctx : Context) : Context :=
  { ctx with referable := List.range ctx.funcs.length, globals := [] }

/-- Whether a module is valid. -/
def Module.check (m : Module) : Bool :=
  match m.funcTypes? with
  | none => false
  | some funcs =>
    let ctx : Context :=
      { types := m.types, funcs, tables := m.tables, memories := m.memories, globals := m.globals
        elems := m.elems.map (·.type), dataCount := m.dataCount, referable := m.referable }
    m.types.all (fun t =>
        decide (t.params.length ≤ maxParams) && decide (t.results.length ≤ maxParams)) &&
      decide (m.tables.length ≤ maxTables) && m.tables.all TableType.check &&
      decide (m.memories.length ≤ maxTables) && m.memories.all (fun l => l.check l.maxPages) &&
      m.globals.all (fun g => g.value.check ctx.beforehand g.type) &&
      m.exports.all (Export.check ctx) && decide (m.exports.map (·.name)).Nodup &&
      m.start.all (fun func => decide (funcs[func]? = some ⟨[], []⟩)) &&
      m.elems.all (ElemSegment.check ctx.beforehand) &&
      m.dataCount.all (· == m.data.length) &&
      m.funcs.all (Func.check ctx) &&
      m.data.all (Segment.check ctx.beforehand)

end Stampline.Wasm
