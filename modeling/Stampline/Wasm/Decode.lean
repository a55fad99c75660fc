import Stampline.Wasm.Encode

/-!
# Bytes as modules

Reading the binary format back. A reader takes bytes off the front and fails if they are not of the
form it expects. Sections come in a fixed order and each at most once, and there may be sections
between them that mean nothing here; sizes have to agree exactly with what they are the sizes of.
-/

namespace Stampline.Wasm

/-- A reader of bytes. -/
abbrev Decoder (α : Type) := StateT (List UInt8) Option α

namespace Decoder

variable {α : Type}

/-- Fails. -/
def fail : Decoder α := fun _ => none

/-- Reads a byte. -/
def byte : Decoder UInt8
  | [] => none
  | b :: rest => some (b, rest)

/-- Reads a byte that has to be `b`. -/
def exactly (b : UInt8) : Decoder Unit := do
  if (← byte) ≠ b then fail

/-- Reads an unsigned number of 32 bits. -/
def u32 : Decoder Nat := readUnsigned 32

/-- Reads a word of 32 bits, written as a signed number. -/
def word32 : Decoder UInt32 := do
  return (Int32.ofInt (← readSigned 32)).toUInt32

/-- Reads a word of 64 bits, written as a signed number. -/
def word64 : Decoder Int64 := do
  return Int64.ofInt (← readSigned 64)

/-- Reads `n` bytes. -/
def bytes (n : Nat) : Decoder (List UInt8) := fun s =>
  if s.length < n then none else some (s.take n, s.drop n)

/-- Reads `n` items. -/
def repeated (item : Decoder α) : Nat → List α → Decoder (List α)
  | 0, before => return before.reverse
  | n + 1, before => do
    let x ← item
    repeated item n (x :: before)

/-- Reads a sequence behind its length. -/
def vec (item : Decoder α) : Decoder (List α) := do
  repeated item (← u32) []

/-- Reads bytes behind their number, all of which `contents` has to take. -/
def sized (contents : Decoder α) : Decoder α := do
  let inner ← bytes (← u32)
  match contents inner with
  | some (x, []) => return x
  | _ => fail

/-- The most bytes that a name can have. -/
def maxNameBytes : Nat := 100000

/-- Reads a name. -/
def name : Decoder String := do
  let length ← u32
  if maxNameBytes < length then fail
  let bs ← bytes length
  match String.fromUTF8? ⟨bs.toArray⟩ with
  | some s => return s
  | none => fail

/-- Reads a type of references, which may be written with a prefix. -/
def refType : Decoder ValueType := do
  match (← byte) with
  | 0x70 => return .funcRef
  | 0x6f => return .externRef
  | 0x63 =>
    match (← byte) with
    | 0x70 => return .funcRef
    | 0x6f => return .externRef
    | _ => fail
  | _ => fail

/-- Reads a type of values. -/
def valueType : Decoder ValueType
  | 0x7f :: rest => some (.i32, rest)
  | 0x7e :: rest => some (.i64, rest)
  | 0x7d :: rest => some (.f32, rest)
  | 0x7c :: rest => some (.f64, rest)
  | s => refType s

/-- Reads a function type. -/
def funcType : Decoder FuncType := do
  exactly 0x60
  let params ← vec valueType
  let results ← vec valueType
  return ⟨params, results⟩

/-- Reads the type of a block. What is neither empty nor a type of values is the index of a type,
written as a signed number. -/
def blockType : Decoder BlockType := fun s =>
  match s with
  | 0x40 :: rest => some (.none, rest)
  | _ =>
    match valueType s with
    | some (type, rest) => some (.value type, rest)
    | none =>
      match readSigned 33 s with
      | some (.ofNat index, rest) => some (.func index, rest)
      | _ => none

/-- Reads the import of a function. Nothing else can be linked. -/
def imported : Decoder Import := do
  let space ← name
  let id ← name
  exactly 0x00
  return ⟨space, id, ← u32⟩

/-- Reads the size of a memory or of a table. -/
def limits : Decoder Limits := do
  let kind ← byte
  if 8 ≤ kind ∨ kind &&& 2 ≠ 0 then fail
  let wide := kind &&& 4 ≠ 0
  let size := if wide then readUnsigned 64 else u32
  let min ← size
  if kind &&& 1 = 0 then return ⟨min, none, wide⟩
  return ⟨min, some (← size), wide⟩

/-- Reads the type of a table. -/
def tableType : Decoder TableType := do
  let entry ← refType
  return ⟨entry, ← limits⟩

/-- Reads an export. -/
def exported : Decoder Export := do
  let id ← name
  let kind ← match (← byte) with
    | 0x00 => pure ExportKind.func
    | 0x01 => pure ExportKind.table
    | 0x02 => pure ExportKind.memory
    | 0x03 => pure ExportKind.global
    | _ => fail
  return ⟨id, kind, ← u32⟩

/-- Reads a place in memory. -/
def memArg : Decoder MemArg := do
  let align ← u32
  if align < 64 then return ⟨0, align, ← readUnsigned 64⟩
  if 128 ≤ align then fail
  let memory ← u32
  return ⟨memory, align - 64, ← readUnsigned 64⟩

/-- Reads a number of `n` bytes. -/
def fixed (n : Nat) : Decoder Nat := do return ofLittleEndian (← bytes n)

/-- Reads the rest of an instruction behind the prefix for further instructions. -/
def further : Decoder (Instr UInt32) := do
  match (← u32) with
  | 8 =>
    let segment ← u32
    return .memoryInit segment (← u32)
  | 9 => return .dataDrop (← u32)
  | 10 =>
    let target ← u32
    return .memoryCopy target (← u32)
  | 11 => return .memoryFill (← u32)
  | 12 =>
    let segment ← u32
    return .tableInit segment (← u32)
  | 13 => return .elemDrop (← u32)
  | 14 =>
    let target ← u32
    return .tableCopy target (← u32)
  | 15 => return .tableGrow (← u32)
  | 16 => return .tableSize (← u32)
  | 17 => return .tableFill (← u32)
  | n =>
    match Numeric.listedBehind[n]? with
    | some op => return .numeric op
    | none => fail

/-- Reads the rest of an instruction that stands in a list of its kind, given its opcode. -/
def listedInstr (opcode : Nat) : Decoder (Instr UInt32) := do
  if opcode < Access.firstStore then
    match Access.loads[opcode - Access.firstLoad]? with
    | some access => return .load access (← memArg)
    | none => fail
  else if opcode < Numeric.firstCode then
    match Access.stores[opcode - Access.firstStore]? with
    | some access => return .store access (← memArg)
    | none => fail
  else
    match Numeric.listed[opcode - Numeric.firstCode]? with
    | some op => return .numeric op
    | none => fail

/-- Reads the rest of an instruction without a body, given its opcode. -/
def plain (opcode : UInt8) : Decoder (Instr UInt32) := do
  match opcode with
  | 0x00 => return .unreachable
  | 0x01 => return .nop
  | 0x0c => return .br (← u32)
  | 0x0d => return .brIf (← u32)
  | 0x0e =>
    let depths ← vec u32
    return .brTable depths (← u32)
  | 0x0f => return .ret
  | 0x10 => return .call (← u32)
  | 0x11 =>
    let type ← u32
    return .callIndirect type (← u32)
  | 0x12 => return .tailCall (← u32)
  | 0x13 =>
    let type ← u32
    return .tailCallIndirect type (← u32)
  | 0x1a => return .drop
  | 0x1b => return .select none
  | 0x1c =>
    match (← vec valueType) with
    | [type] => return .select (some type)
    | _ => fail
  | 0x20 => return .localGet (← u32)
  | 0x21 => return .localSet (← u32)
  | 0x22 => return .localTee (← u32)
  | 0x23 => return .globalGet (← u32)
  | 0x24 => return .globalSet (← u32)
  | 0x25 => return .tableGet (← u32)
  | 0x26 => return .tableSet (← u32)
  | 0x3f => return .memorySize (← u32)
  | 0x40 => return .memoryGrow (← u32)
  | 0x41 => return .const32 (← word32)
  | 0x42 => return .const64 (← word64)
  | 0x43 => return .constFloat32 (UInt32.ofNat (← fixed 4))
  | 0x44 => return .constFloat64 (UInt64.ofNat (← fixed 8))
  | 0xd0 =>
    match (← byte) with
    | 0x70 => return .refNull .funcRef
    | 0x6f => return .refNull .externRef
    | _ => fail
  | 0xd1 => return .refIsNull
  | 0xd2 => return .refFunc (← u32)
  | 0xfc => further
  | _ => if opcode.toNat < Access.firstLoad then fail else listedInstr opcode.toNat

/-- What ends a run of instructions. -/
inductive Closing where
  | done | orelse
deriving DecidableEq, Repr

/-- Reads instructions up to what ends them. Every instruction takes a byte, so the number of bytes
bounds the recursion. -/
def instrs : Nat → List (Instr UInt32) → Decoder (List (Instr UInt32) × Closing)
  | 0, _ => fail
  | bound + 1, before => do
    let opcode ← byte
    match opcode with
    | 0x0b => return (before.reverse, .done)
    | 0x05 => return (before.reverse, .orelse)
    | 0x02 =>
      let type ← blockType
      match (← instrs bound []) with
      | (body, .done) => instrs bound (.block type body :: before)
      | _ => fail
    | 0x03 =>
      let type ← blockType
      match (← instrs bound []) with
      | (body, .done) => instrs bound (.loop type body :: before)
      | _ => fail
    | 0x04 =>
      let type ← blockType
      match (← instrs bound []) with
      | (body, .done) => instrs bound (.when type body :: before)
      | (body, .orelse) =>
        match (← instrs bound []) with
        | (orelse, .done) => instrs bound (.choose type body orelse :: before)
        | _ => fail
    | _ =>
      let i ← plain opcode
      instrs bound (i :: before)

/-- Reads instructions up to their end. -/
def body : Decoder (List (Instr UInt32)) := do
  let bound := (← get).length
  match (← instrs bound []) with
  | (body, .done) => return body
  | _ => fail

/-- Reads a global. -/
def global : Decoder Global := do
  let type ← valueType
  let isMutable ← match (← byte) with
    | 0x00 => pure false
    | 0x01 => pure true
    | _ => fail
  return ⟨type, isMutable, ← body⟩

/-- Reads a run of locals. -/
def localRun : Decoder (Nat × ValueType) := do
  let n ← u32
  return (n, ← valueType)

/-- Reads the contents of a piece of code: locals and instructions. -/
def code : Decoder (List (Nat × ValueType) × List (Instr UInt32)) := do
  let locals ← vec localRun
  return (locals, ← body)

/-- Reads a segment of references. Its kind tells when it is used, whether the table is given, and
whether the references are given as code or as the indices of functions. -/
def elemSegment : Decoder ElemSegment := do
  let kind ← u32
  if 8 ≤ kind then fail
  let mode ←
    if kind % 2 = 1 then pure (if kind / 2 % 2 = 1 then SegmentMode.declared else .passive)
    else do
      let table ← if kind / 2 % 2 = 1 then u32 else pure 0
      pure (.active table (← body))
  if kind < 4 then
    if kind ≠ 0 then exactly 0x00
    return ⟨.funcRef, mode, (← vec u32).map fun func => [.refFunc func]⟩
  else
    let type ← if kind = 4 then pure .funcRef else refType
    return ⟨type, mode, ← vec body⟩

/-- Reads a segment of bytes. -/
def segment : Decoder Segment := do
  let mode ← match (← u32) with
    | 0 => do pure (SegmentMode.active 0 (← body))
    | 1 => pure .passive
    | 2 => do
      let memory ← u32
      pure (.active memory (← body))
    | _ => fail
  return ⟨mode, ← bytes (← u32)⟩

/-! ## Sections -/

/-- Passes over the sections that come next and mean nothing here. They only have to have a name.
Every section takes a byte, so the number of bytes bounds the recursion. -/
def passOver : Nat → Decoder Unit
  | 0 => return
  | bound + 1 => do
    match (← get) with
    | 0x00 :: _ =>
      let _ ← byte
      let inner ← bytes (← u32)
      match name inner with
      | some _ => passOver bound
      | none => fail
    | _ => return

/-- Reads the section of the given number if it comes next. -/
def sectionOf (number : UInt8) (contents : Decoder α) (missing : α) : Decoder α := do
  passOver (← get).length
  match (← get) with
  | [] => return missing
  | b :: _ =>
    if b = number then
      let _ ← byte
      sized contents
    else
      return missing

/-- Joins the types of functions with their code. There have to be as many of either. -/
def joinFuncs : List Nat → List (List (Nat × ValueType) × List (Instr UInt32)) →
    Decoder (List (Func UInt32))
  | [], [] => return []
  | t :: ts, (locals, body) :: cs => do
    return ⟨t, locals, body⟩ :: (← joinFuncs ts cs)
  | _, _ => fail

/-- Reads a module. -/
def wholeModule : Decoder Module := do
  if (← bytes 8) ≠ preamble then fail
  let types ← sectionOf 1 (vec funcType) []
  let imports ← sectionOf 2 (vec imported) []
  let funcTypes ← sectionOf 3 (vec u32) []
  let tables ← sectionOf 4 (vec tableType) []
  let memories ← sectionOf 5 (vec limits) []
  let globals ← sectionOf 6 (vec global) []
  let exports ← sectionOf 7 (vec exported) []
  let start ← sectionOf 8 (do return some (← u32)) none
  let elems ← sectionOf 9 (vec elemSegment) []
  let dataCount ← sectionOf 12 (do return some (← u32)) none
  let codes ← sectionOf 10 (vec (sized code)) []
  let data ← sectionOf 11 (vec segment) []
  passOver (← get).length
  let funcs ← joinFuncs funcTypes codes
  return { types, imports, funcs, tables, memories, globals, exports, start, elems, data,
           dataCount }

end Decoder

/-- The module that bytes encode, if they encode one. -/
def decode (bytes : List UInt8) : Option Module :=
  match Decoder.wholeModule bytes with
  | some (m, []) => some m
  | _ => none

end Stampline.Wasm
