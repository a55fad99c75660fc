import Stampline.Wasm.Numeric

/-!
# WebAssembly modules

A module has functions, some of them imported from a host, tables of references, memories and
globals. Its instructions are a tree, so control is structured by construction. They are parametric
in their constants of 32 bits: a finished module has words there, while code under construction may
have references that are yet to be resolved.
-/

namespace Stampline.Wasm

/-- The type of a function. -/
structure FuncType where
  /-- What it takes, the first parameter first. -/
  params : List ValueType
  /-- What it leaves. -/
  results : List ValueType
deriving DecidableEq, Repr, Inhabited

/-- What a block takes from the stack and leaves there. -/
inductive BlockType where
  /-- Nothing. -/
  | none
  /-- It takes nothing and leaves one value. -/
  | value (type : ValueType)
  /-- What the function type of an index says. -/
  | func (type : Nat)
deriving DecidableEq, Repr, Inhabited

/-- Where an instruction finds its place in memory. -/
structure MemArg where
  /-- The index of the memory. -/
  memory : Nat
  /-- The exponent of the power of two that the place should be a multiple of. -/
  align : Nat
  /-- What is added to the address on the stack. -/
  offset : Nat
deriving DecidableEq, Repr, Inhabited

/-- How a value is kept in memory. -/
structure Access where
  /-- The type of the value. -/
  type : ValueType
  /-- The number of bytes it takes in memory. -/
  bytes : Nat
  /-- Whether a value that takes fewer bytes there is a signed integer. -/
  signed : Bool
deriving DecidableEq, Repr, Inhabited

namespace Access

/-- The number of bytes of a value outside memory. -/
def wholeBytes (a : Access) : Nat :=
  match a.type with
  | .i64 | .f64 => 8
  | _ => 4

/-- The ways to load a value, in the order of their opcodes. -/
def loads : List Access :=
  [⟨.i32, 4, false⟩, ⟨.i64, 8, false⟩, ⟨.f32, 4, false⟩, ⟨.f64, 8, false⟩,
   ⟨.i32, 1, true⟩, ⟨.i32, 1, false⟩, ⟨.i32, 2, true⟩, ⟨.i32, 2, false⟩,
   ⟨.i64, 1, true⟩, ⟨.i64, 1, false⟩, ⟨.i64, 2, true⟩, ⟨.i64, 2, false⟩,
   ⟨.i64, 4, true⟩, ⟨.i64, 4, false⟩]

/-- The opcode of the first of them. -/
def firstLoad : Nat := 0x28

/-- The ways to store a value, in the order of their opcodes. -/
def stores : List Access :=
  [⟨.i32, 4, false⟩, ⟨.i64, 8, false⟩, ⟨.f32, 4, false⟩, ⟨.f64, 8, false⟩,
   ⟨.i32, 1, false⟩, ⟨.i32, 2, false⟩,
   ⟨.i64, 1, false⟩, ⟨.i64, 2, false⟩, ⟨.i64, 4, false⟩]

/-- The opcode of the first of them. -/
def firstStore : Nat := 0x36

/-- The end of a name that tells how many bits are kept in memory. -/
def bitsName (a : Access) : String := if a.bytes = a.wholeBytes then "" else toString (8 * a.bytes)

/-- The name of the instruction that loads. -/
def loadName (a : Access) : String :=
  a.type.name ++ ".load" ++ a.bitsName ++
    if a.bytes = a.wholeBytes then "" else Numeric.signName a.signed

/-- The name of the instruction that stores. -/
def storeName (a : Access) : String := a.type.name ++ ".store" ++ a.bitsName

end Access

/-- An instruction. Depths of branches count the enclosing labels from the innermost. -/
inductive Instr (ι : Type) where
  /-- Traps. -/
  | unreachable
  /-- Does nothing. -/
  | nop
  /-- Runs a body; a branch to its label leaves it. -/
  | block (type : BlockType) (body : List (Instr ι))
  /-- Runs a body; a branch to its label runs it again. -/
  | loop (type : BlockType) (body : List (Instr ι))
  /-- Runs a body if the top of the stack is not zero. -/
  | when (type : BlockType) (body : List (Instr ι))
  /-- Runs one of two bodies, depending on the top of the stack. -/
  | choose (type : BlockType) (body orelse : List (Instr ι))
  /-- Branches to a label. -/
  | br (depth : Nat)
  /-- Branches to a label if the top of the stack is not zero. -/
  | brIf (depth : Nat)
  /-- Branches to the label whose place is on top of the stack, or to the last one. -/
  | brTable (depths : List Nat) (last : Nat)
  /-- Leaves the function. -/
  | ret
  /-- Calls a function. -/
  | call (func : Nat)
  /-- Calls the function of the given type whose place in a table is on top of the stack. -/
  | callIndirect (type table : Nat)
  /-- Leaves the function by calling another one. -/
  | tailCall (func : Nat)
  /-- Leaves the function by calling one from a table. -/
  | tailCallIndirect (type table : Nat)
  /-- Drops the top of the stack. -/
  | drop
  /-- Keeps one of two values, of the given type or of a type that is that of numbers. -/
  | select (type : Option ValueType)
  /-- Pushes a local. -/
  | localGet (slot : Nat)
  /-- Pops into a local. -/
  | localSet (slot : Nat)
  /-- Sets a local to the top of the stack. -/
  | localTee (slot : Nat)
  /-- Pushes a global. -/
  | globalGet (index : Nat)
  /-- Pops into a global. -/
  | globalSet (index : Nat)
  /-- Pushes an entry of a table. -/
  | tableGet (table : Nat)
  /-- Pops into an entry of a table. -/
  | tableSet (table : Nat)
  /-- Pushes the size of a table. -/
  | tableSize (table : Nat)
  /-- Makes a table larger. -/
  | tableGrow (table : Nat)
  /-- Sets entries of a table. -/
  | tableFill (table : Nat)
  /-- Copies entries of a table to another one. -/
  | tableCopy (target source : Nat)
  /-- Copies items of a segment to a table. -/
  | tableInit (segment table : Nat)
  /-- Empties a segment of references. -/
  | elemDrop (segment : Nat)
  /-- Loads a value from memory. -/
  | load (access : Access) (place : MemArg)
  /-- Stores a value in memory. -/
  | store (access : Access) (place : MemArg)
  /-- Pushes the size of a memory. -/
  | memorySize (memory : Nat)
  /-- Makes a memory larger. -/
  | memoryGrow (memory : Nat)
  /-- Sets bytes of a memory. -/
  | memoryFill (memory : Nat)
  /-- Copies bytes of a memory to another one. -/
  | memoryCopy (target source : Nat)
  /-- Copies bytes of a segment to a memory. -/
  | memoryInit (segment memory : Nat)
  /-- Empties a segment of bytes. -/
  | dataDrop (segment : Nat)
  /-- Pushes an integer of 32 bits. -/
  | const32 (value : ι)
  /-- Pushes an integer of 64 bits. -/
  | const64 (value : Int64)
  /-- Pushes a float of 32 bits. -/
  | constFloat32 (bits : UInt32)
  /-- Pushes a float of 64 bits. -/
  | constFloat64 (bits : UInt64)
  /-- Computes. -/
  | numeric (op : Numeric)
  /-- Pushes the reference to nothing. -/
  | refNull (type : ValueType)
  /-- Tests whether a reference is that to nothing. -/
  | refIsNull
  /-- Pushes the reference to a function. -/
  | refFunc (func : Nat)
deriving Inhabited

/-- Code that computes a value before anything runs. -/
abbrev Constant := List (Instr UInt32)

/-- A function that a module takes from its host. -/
structure Import where
  /-- The name space it is taken from. -/
  space : String
  /-- Its name there. -/
  name : String
  /-- The index of its type. -/
  type : Nat
deriving DecidableEq, Repr

/-- A function that a module defines. -/
structure Func (ι : Type) where
  /-- The index of its type. -/
  type : Nat
  /-- Its locals behind the parameters, in runs of one type. -/
  locals : List (Nat × ValueType)
  /-- Its body. -/
  body : List (Instr ι)
deriving Inhabited

/-- The size of a memory in pages, or that of a table in entries. -/
structure Limits where
  /-- The size to start with. -/
  min : Nat
  /-- The size never to exceed. -/
  max : Option Nat
  /-- Whether addresses have 64 bits and not 32. -/
  wide : Bool
deriving DecidableEq, Repr, Inhabited

namespace Limits

/-- The type of addresses. -/
def address (l : Limits) : ValueType := if l.wide then .i64 else .i32

/-- The most pages that a memory may have. -/
def maxPages (l : Limits) : Nat := if l.wide then 0x1000000000000 else 65536

end Limits

/-- The type of a table. -/
structure TableType where
  /-- The type of its entries. -/
  entry : ValueType
  /-- Its size. -/
  limits : Limits
deriving DecidableEq, Repr, Inhabited

/-- A global of a module. -/
structure Global where
  /-- Its type. -/
  type : ValueType
  /-- Whether it can be set. -/
  isMutable : Bool
  /-- What it is at first. -/
  value : Constant
deriving Inhabited

/-- What an export refers to. -/
inductive ExportKind where
  | func | table | memory | global
deriving DecidableEq, Repr

/-- A name that a module offers to its host. -/
structure Export where
  /-- The name. -/
  name : String
  /-- What kind of thing it is. -/
  kind : ExportKind
  /-- The index of the thing among those of its kind. -/
  index : Nat
deriving DecidableEq, Repr

/-- When a segment is used. -/
inductive SegmentMode where
  /-- When code asks for it. -/
  | passive
  /-- Never: it only says which functions there are references to. -/
  | declared
  /-- Before anything runs, in the memory or the table of an index. -/
  | active (target : Nat) (offset : Constant)
deriving Inhabited

/-- Bytes that are placed in memory. -/
structure Segment where
  /-- When they are. -/
  mode : SegmentMode
  /-- The bytes. -/
  bytes : List UInt8
deriving Inhabited

/-- References that are placed in a table. -/
structure ElemSegment where
  /-- Their type. -/
  type : ValueType
  /-- When they are. -/
  mode : SegmentMode
  /-- The references. -/
  items : List Constant
deriving Inhabited

/-- A module. Imported functions come first in the numbering of functions. -/
structure Module where
  /-- The types of functions. -/
  types : List FuncType
  /-- The imported functions. -/
  imports : List Import
  /-- The functions defined here. -/
  funcs : List (Func UInt32)
  /-- The tables. -/
  tables : List TableType := []
  /-- The sizes of the memories. -/
  memories : List Limits
  /-- The globals. -/
  globals : List Global := []
  /-- The exports. -/
  exports : List Export
  /-- The function that is called before all others, if there is one. -/
  start : Option Nat := none
  /-- The segments of references. -/
  elems : List ElemSegment := []
  /-- The segments of bytes. -/
  data : List Segment
  /-- The number of the segments of bytes, if it is known before the code. -/
  dataCount : Option Nat := none
deriving Inhabited

/-- The number of bytes in a page of memory. -/
def pageSize : Nat := 65536

variable {ι κ : Type}

mutual

/-- The instruction with every constant of 32 bits replaced. -/
def Instr.map (f : ι → κ) : Instr ι → Instr κ
  | .unreachable => .unreachable
  | .nop => .nop
  | .block type body => .block type (mapInstrs f body)
  | .loop type body => .loop type (mapInstrs f body)
  | .when type body => .when type (mapInstrs f body)
  | .choose type body orelse => .choose type (mapInstrs f body) (mapInstrs f orelse)
  | .br depth => .br depth
  | .brIf depth => .brIf depth
  | .brTable depths last => .brTable depths last
  | .ret => .ret
  | .call func => .call func
  | .callIndirect type table => .callIndirect type table
  | .tailCall func => .tailCall func
  | .tailCallIndirect type table => .tailCallIndirect type table
  | .drop => .drop
  | .select type => .select type
  | .localGet slot => .localGet slot
  | .localSet slot => .localSet slot
  | .localTee slot => .localTee slot
  | .globalGet index => .globalGet index
  | .globalSet index => .globalSet index
  | .tableGet table => .tableGet table
  | .tableSet table => .tableSet table
  | .tableSize table => .tableSize table
  | .tableGrow table => .tableGrow table
  | .tableFill table => .tableFill table
  | .tableCopy target source => .tableCopy target source
  | .tableInit segment table => .tableInit segment table
  | .elemDrop segment => .elemDrop segment
  | .load access place => .load access place
  | .store access place => .store access place
  | .memorySize memory => .memorySize memory
  | .memoryGrow memory => .memoryGrow memory
  | .memoryFill memory => .memoryFill memory
  | .memoryCopy target source => .memoryCopy target source
  | .memoryInit segment memory => .memoryInit segment memory
  | .dataDrop segment => .dataDrop segment
  | .const32 value => .const32 (f value)
  | .const64 value => .const64 value
  | .constFloat32 bits => .constFloat32 bits
  | .constFloat64 bits => .constFloat64 bits
  | .numeric op => .numeric op
  | .refNull type => .refNull type
  | .refIsNull => .refIsNull
  | .refFunc func => .refFunc func

/-- The instructions with every constant of 32 bits replaced. -/
def mapInstrs (f : ι → κ) : List (Instr ι) → List (Instr κ)
  | [] => []
  | i :: is => i.map f :: mapInstrs f is

end

mutual

/-- The constants of 32 bits in an instruction, in the order of the code. -/
def Instr.constants : Instr ι → List ι
  | .block _ body | .loop _ body | .when _ body => constantsOf body
  | .choose _ body orelse => constantsOf body ++ constantsOf orelse
  | .const32 value => [value]
  | _ => []

/-- The constants of 32 bits in instructions, in the order of the code. -/
def constantsOf : List (Instr ι) → List ι
  | [] => []
  | i :: is => i.constants ++ constantsOf is

end

/-- The function with every constant of 32 bits replaced. -/
def Func.map (f : ι → κ) (func : Func ι) : Func κ :=
  { func with body := mapInstrs f func.body }

end Stampline.Wasm
