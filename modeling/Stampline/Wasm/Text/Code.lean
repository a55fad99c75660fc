import Stampline.Wasm.Basic
import Stampline.Wasm.Text.Number
import Stampline.Wasm.Text.Tree

/-!
# Code in the text format

Instructions are written one behind the other, or as lists in which the operands of an instruction
follow it. Either way they come to a flat sequence, in which blocks are opened and closed; the
sequence is then made into a tree.

Things are referred to by their number or by a name. Types of functions that are not declared are
added behind those that are.
-/

namespace Stampline.Wasm.Text

/-! ## What code refers to -/

/-- The names of the things of one kind, by number. -/
abbrev NameList := List (Option String)

/-- The names in a module. -/
structure Names where
  /-- The names of types. -/
  types : NameList := []
  /-- The names of functions. -/
  funcs : NameList := []
  /-- The names of tables. -/
  tables : NameList := []
  /-- The names of memories. -/
  memories : NameList := []
  /-- The names of globals. -/
  globals : NameList := []
  /-- The names of segments of references. -/
  elems : NameList := []
  /-- The names of segments of bytes. -/
  data : NameList := []
  /-- The names of the locals of a function. -/
  locals : NameList := []

/-- The number of what an atom refers to. -/
def NameList.find? (names : NameList) (atom : String) : Option Nat :=
  if atom.toList.head? = some '$' then names.idxOf? (some atom) else index? atom

/-- Whether no name is given twice. -/
def NameList.areDistinct (names : NameList) : Bool := decide (names.filterMap id).Nodup

/-- What changes while code is read. -/
structure Progress where
  /-- The types of functions so far. -/
  types : List FuncType
  /-- The names of the labels around the code, the innermost first. -/
  labels : NameList := []

/-- A reader of trees: it fails, or it yields something and leaves trees. -/
abbrev Reader (α : Type) := List Tree → StateT Progress Option (α × List Tree)

/-! ## Types -/

/-- The type of references to things of a kind. -/
def heapType? : String → Option ValueType
  | "func" => some .funcRef
  | "extern" => some .externRef
  | _ => none

/-- The type of references that a tree is. -/
def refType? : Tree → Option ValueType
  | .atom "funcref" => some .funcRef
  | .atom "externref" => some .externRef
  | .list [.atom "ref", .atom "null", .atom kind] => heapType? kind
  | _ => none

/-- The type of values that a tree is. -/
def valueType? : Tree → Option ValueType
  | .atom "i32" => some .i32
  | .atom "i64" => some .i64
  | .atom "f32" => some .f32
  | .atom "f64" => some .f64
  | t => refType? t

/-- Types that are declared together, with the name of the only one if it has a name. -/
def declared? (items : List Tree) : Option (List (Option String × ValueType)) :=
  match Tree.takeName items with
  | (some name, [t]) => (valueType? t).map fun t => [(some name, t)]
  | (some _, _) => none
  | (none, ts) => (ts.mapM valueType?).map (·.map (none, ·))

/-- A function type that is written, with the names of its parameters. -/
structure Signature where
  /-- The names of the parameters. -/
  names : NameList
  /-- The type. -/
  type : FuncType

/-- The function type that trees begin with, behind the part of it that was read before, and the
trees behind it. Results come behind parameters. -/
def signatureAfter (s : Signature) : List Tree → Option (Signature × List Tree)
  | [] => some (s, [])
  | t :: ts =>
    match t.form? "param", t.form? "result" with
    | some items, _ => do
      if !s.type.results.isEmpty then none
      let params ← declared? items
      signatureAfter
        ⟨s.names ++ params.map (·.1), s.type.params ++ params.map (·.2), s.type.results⟩ ts
    | none, some items => do
      let results ← items.mapM valueType?
      signatureAfter ⟨s.names, s.type.params, s.type.results ++ results⟩ ts
    | none, none => some (s, t :: ts)

/-- The function type that trees begin with, and the trees behind it. -/
def signature? (ts : List Tree) : Option (Signature × List Tree) :=
  signatureAfter ⟨[], [], []⟩ ts

/-- The index of a type, which is added if it is not there yet. -/
def typeIndex (t : FuncType) : StateT Progress Option Nat := do
  let p ← get
  match p.types.idxOf? t with
  | some index => return index
  | none =>
    set { p with types := p.types ++ [t] }
    return p.types.length

/-- Reads the use of a function type: the reference to one, or the type itself, or both, which have
to be the same then. A type may be referred to that is added later. -/
def typeUse (names : Names) : Reader (Option Nat × Signature) := fun ts => do
  let (uses, ts) := Tree.takeForms "type" ts
  let (inline, rest) ← signature? ts
  match uses with
  | [] => return ((none, inline), rest)
  | [[.atom atom]] =>
    let index ← names.types.find? atom
    match (← get).types[index]? with
    | none => return ((some index, inline), rest)
    | some type =>
      if rest.length = ts.length then
        return ((some index, ⟨List.replicate type.params.length none, type⟩), rest)
      else if inline.type = type then return ((some index, inline), rest)
      else failure
  | _ => failure

/-- Reads the use of a function type that has a number. -/
def numberedType (names : Names) : Reader (Nat × Signature) := fun ts => do
  let ((index, signature), ts) ← typeUse names ts
  match index with
  | some index => return ((index, signature), ts)
  | none => return ((← typeIndex signature.type, signature), ts)

/-- Reads the use of a function type in code, where parameters have no names. -/
def namelessType (names : Names) : Reader (Option Nat × FuncType) := fun ts => do
  let ((index, signature), ts) ← typeUse names ts
  if signature.names.all Option.isNone then return ((index, signature.type), ts) else failure

/-- Reads the type of a block. -/
def blockType (names : Names) : Reader BlockType := fun ts => do
  let ((index, type), ts) ← namelessType names ts
  match index, type with
  | some index, _ => return (.func index, ts)
  | none, ⟨[], []⟩ => return (.none, ts)
  | none, ⟨[], [t]⟩ => return (.value t, ts)
  | none, t => return (.func (← typeIndex t), ts)

/-! ## Instructions without a body -/

/-- Reads the number of something. -/
def reference (names : NameList) : Reader Nat
  | .atom atom :: ts => do return (← names.find? atom, ts)
  | _ => failure

/-- Reads the number of something that is the first of its kind unless it is given. -/
def optionalReference (names : NameList) : Reader Nat := fun ts =>
  if Tree.beginsWithIndex ts then reference names ts else return (0, ts)

/-- Reads two numbers, or none, in place of which both are that of the first of their kind. -/
def optionalReferences (names : NameList) : Reader (Nat × Nat) := fun ts => do
  if Tree.beginsWithIndex ts then
    let (a, ts) ← reference names ts
    let (b, ts) ← reference names ts
    return ((a, b), ts)
  else return ((0, 0), ts)

/-- Reads the number of a segment, in front of which that of a table or a memory may stand. -/
def segmentReference (segments targets : NameList) : Reader (Nat × Nat) := fun ts =>
  match ts with
  | first :: rest =>
    if Tree.beginsWithIndex rest then do
      let (target, _) ← reference targets [first]
      let (segment, ts) ← reference segments rest
      return ((segment, target), ts)
    else do
      let (segment, ts) ← reference segments ts
      return ((segment, 0), ts)
  | [] => failure

/-- The numbers of labels that trees begin with, and the trees behind them. -/
def labelReferences (labels : NameList) (before : List Nat) : List Tree →
    Option (List Nat × List Tree)
  | .atom atom :: ts =>
    if Tree.beginsWithIndex [.atom atom] then do
      labelReferences labels ((← labels.find? atom) :: before) ts
    else some (before.reverse, .atom atom :: ts)
  | ts => some (before.reverse, ts)

/-- The value of a field of a place in memory that trees begin with, if it has the given name, and
the trees behind it. -/
def memoryField? (name : String) (bound default : Nat) : List Tree → Option (Nat × List Tree)
  | .atom atom :: ts =>
    let cs := atom.toList
    let mark := (name ++ "=").toList
    if mark.isPrefixOf cs then
      (naturalBelow? bound (String.ofList (cs.drop mark.length))).map (·, ts)
    else some (default, .atom atom :: ts)
  | ts => some (default, ts)

/-- Reads a place in memory of a value that takes `bytes` bytes. -/
def memoryPlace (names : Names) (bytes : Nat) : Reader MemArg := fun ts => do
  let (memory, ts) ← optionalReference names.memories ts
  let (offset, ts) ← memoryField? "offset" 0x10000000000000000 0 ts
  let (align, ts) ← memoryField? "align" 0x100000000 bytes ts
  if align = Nat.pow 2 align.log2 then return (⟨memory, align.log2, offset⟩, ts) else failure

/-- The operations on numbers by name. -/
def numericNames : List (String × Numeric) :=
  (Numeric.listed ++ Numeric.listedBehind).map fun op => (op.name, op)

/-- The ways to load a value by name. -/
def loadNames : List (String × Access) := Access.loads.map fun a => (a.loadName, a)

/-- The ways to store a value by name. -/
def storeNames : List (String × Access) := Access.stores.map fun a => (a.storeName, a)

/-- Reads the rest of an instruction that stands in a list of its kind. -/
def listedInstr (names : Names) (name : String) : Reader (Instr UInt32) := fun ts =>
  match numericNames.lookup name, loadNames.lookup name, storeNames.lookup name with
  | some op, _, _ => return (.numeric op, ts)
  | _, some access, _ => do
    let (place, ts) ← memoryPlace names access.bytes ts
    return (.load access place, ts)
  | _, _, some access => do
    let (place, ts) ← memoryPlace names access.bytes ts
    return (.store access place, ts)
  | _, _, _ => failure

/-- Reads the constant behind the name of an instruction. -/
def constant? (name atom : String) : Option (Instr UInt32) :=
  match name with
  | "i32.const" => (integer? 32 atom).map fun n => .const32 (Int32.ofInt n).toUInt32
  | "i64.const" => (integer? 64 atom).map fun n => .const64 (Int64.ofInt n)
  | "f32.const" => (floatBits? (.ofWidth .w32) atom).map fun n => .constFloat32 (UInt32.ofNat n)
  | "f64.const" => (floatBits? (.ofWidth .w64) atom).map fun n => .constFloat64 (UInt64.ofNat n)
  | _ => none

/-- An instruction with what was read for it. -/
def withRead {α : Type} (make : α → Instr UInt32) (read : Reader α) : Reader (Instr UInt32) :=
  fun ts => do
    let (a, ts) ← read ts
    return (make a, ts)

/-- Reads the table and the type of a call through a table. The table may be given on either side of
the type. -/
def indirectCall (names : Names) : Reader (Nat × Nat) := fun ts => do
  let isGiven := Tree.beginsWithIndex ts
  let (table, ts) ← optionalReference names.tables ts
  let ((index, type), ts) ← namelessType names ts
  let type ← match index with
    | some index => pure index
    | none => typeIndex type
  if isGiven then return ((type, table), ts)
  let (table, ts) ← optionalReference names.tables ts
  return ((type, table), ts)

/-- Reads the rest of an instruction that acts on a table or a memory, given its name. -/
def bulkInstr (names : Names) (name : String) : Reader (Instr UInt32) :=
  match name with
  | "table.get" => withRead .tableGet (optionalReference names.tables)
  | "table.set" => withRead .tableSet (optionalReference names.tables)
  | "table.size" => withRead .tableSize (optionalReference names.tables)
  | "table.grow" => withRead .tableGrow (optionalReference names.tables)
  | "table.fill" => withRead .tableFill (optionalReference names.tables)
  | "table.copy" => withRead (fun p => .tableCopy p.1 p.2) (optionalReferences names.tables)
  | "table.init" =>
    withRead (fun p => .tableInit p.1 p.2) (segmentReference names.elems names.tables)
  | "elem.drop" => withRead .elemDrop (reference names.elems)
  | "memory.size" => withRead .memorySize (optionalReference names.memories)
  | "memory.grow" => withRead .memoryGrow (optionalReference names.memories)
  | "memory.fill" => withRead .memoryFill (optionalReference names.memories)
  | "memory.copy" => withRead (fun p => .memoryCopy p.1 p.2) (optionalReferences names.memories)
  | "memory.init" =>
    withRead (fun p => .memoryInit p.1 p.2) (segmentReference names.data names.memories)
  | "data.drop" => withRead .dataDrop (reference names.data)
  | _ => listedInstr names name

/-- Reads the rest of an instruction without a body, given its name. -/
def plainInstr (names : Names) (name : String) : Reader (Instr UInt32) := fun ts => do
  match name with
  | "unreachable" => return (.unreachable, ts)
  | "nop" => return (.nop, ts)
  | "br" => withRead .br (reference (← get).labels) ts
  | "br_if" => withRead .brIf (reference (← get).labels) ts
  | "br_table" =>
    let (depths, ts) ← labelReferences (← get).labels [] ts
    match depths.getLast? with
    | some last => return (.brTable depths.dropLast last, ts)
    | none => failure
  | "return" => return (.ret, ts)
  | "call" => withRead .call (reference names.funcs) ts
  | "call_indirect" => withRead (fun p => .callIndirect p.1 p.2) (indirectCall names) ts
  | "return_call" => withRead .tailCall (reference names.funcs) ts
  | "return_call_indirect" =>
    withRead (fun p => .tailCallIndirect p.1 p.2) (indirectCall names) ts
  | "drop" => return (.drop, ts)
  | "select" =>
    let (results, ts) := Tree.takeForms "result" ts
    let types : Option (List ValueType) := results.flatMapM (·.mapM valueType?)
    match results, (← types) with
    | [], _ => return (.select none, ts)
    | _, [t] => return (.select (some t), ts)
    | _, _ => failure
  | "local.get" => withRead .localGet (reference names.locals) ts
  | "local.set" => withRead .localSet (reference names.locals) ts
  | "local.tee" => withRead .localTee (reference names.locals) ts
  | "global.get" => withRead .globalGet (reference names.globals) ts
  | "global.set" => withRead .globalSet (reference names.globals) ts
  | "ref.null" =>
    match ts with
    | .atom kind :: ts => return (.refNull (← heapType? kind), ts)
    | _ => failure
  | "ref.is_null" => return (.refIsNull, ts)
  | "ref.func" => withRead .refFunc (reference names.funcs) ts
  | _ =>
    match ts with
    | .atom atom :: rest =>
      match constant? name atom with
      | some i => return (i, rest)
      | none => bulkInstr names name ts
    | _ => bulkInstr names name ts

/-! ## Sequences -/

/-- What is opened in a sequence. -/
inductive Opening where
  | block | loop | condition
deriving DecidableEq, Repr

/-- What is opened by a word. -/
def Opening.ofWord? : String → Option Opening
  | "block" => some block
  | "loop" => some loop
  | "if" => some condition
  | _ => none

/-- A part of a sequence of instructions. -/
inductive Piece where
  /-- An instruction without a body. -/
  | plain (i : Instr UInt32)
  /-- The beginning of a body. -/
  | opening (what : Opening) (type : BlockType)
  /-- The beginning of the second body of two. -/
  | orelse
  /-- The end of a body. -/
  | closing

/-- Reads the label and the type of a block. -/
def blockHead (names : Names) : Reader (Option String × BlockType) := fun ts => do
  let (label, ts) := Tree.takeName ts
  let (type, ts) ← blockType names ts
  return ((label, type), ts)

/-- Adds a label around the code that follows. -/
def pushLabel (label : Option String) : StateT Progress Option Unit :=
  modify fun p => { p with labels := label :: p.labels }

/-- Leaves the innermost label, if there is one. -/
def popLabel : StateT Progress Option Unit := do
  let p ← get
  match p.labels with
  | [] => failure
  | _ :: labels => set { p with labels }

/-- The trees behind the name of the innermost label, which may be repeated. -/
def skipLabel (ts : List Tree) : StateT Progress Option (List Tree) := do
  match Tree.takeName ts, (← get).labels with
  | (none, ts), _ => return ts
  | (some name, ts), label :: _ => if label = some name then return ts else failure
  | _, [] => failure

mutual

/-- The pieces of code. The number of trees and what is in them bounds the recursion. -/
def pieces (names : Names) (bound : Nat) (ts : List Tree) : StateT Progress Option (List Piece) :=
  match bound with
  | 0 => failure
  | bound + 1 =>
    match ts with
    | [] => return []
    | .list (.atom word :: items) :: ts => do
      let first ← folded names bound word items
      return first ++ (← pieces names bound ts)
    | .atom word :: ts => do
      match word, Opening.ofWord? word with
      | _, some what =>
        let ((label, type), ts) ← blockHead names ts
        pushLabel label
        return .opening what type :: (← pieces names bound ts)
      | "else", _ =>
        let ts ← skipLabel ts
        return .orelse :: (← pieces names bound ts)
      | "end", _ =>
        let ts ← skipLabel ts
        popLabel
        return .closing :: (← pieces names bound ts)
      | _, _ =>
        let (i, ts) ← plainInstr names word ts
        return .plain i :: (← pieces names bound ts)
    | _ => failure

/-- The pieces of an instruction that is a list: its operands come first. -/
def folded (names : Names) (bound : Nat) (word : String) (items : List Tree) :
    StateT Progress Option (List Piece) :=
  match bound with
  | 0 => failure
  | bound + 1 => do
    match Opening.ofWord? word with
    | some .condition =>
      let ((label, type), items) ← blockHead names items
      conditional names bound label type items
    | some what =>
      let ((label, type), items) ← blockHead names items
      pushLabel label
      let body ← pieces names bound items
      popLabel
      return .opening what type :: body ++ [.closing]
    | none =>
      let (i, items) ← plainInstr names word items
      return (← pieces names bound items) ++ [.plain i]

/-- The pieces of a condition that is a list: the operands, the first body, and the second one if
there is one. -/
def conditional (names : Names) (bound : Nat) (label : Option String) (type : BlockType)
    (items : List Tree) : StateT Progress Option (List Piece) :=
  match bound with
  | 0 => failure
  | bound + 1 =>
    match items with
    | .list (.atom "then" :: body) :: rest => do
      pushLabel label
      let body ← pieces names bound body
      match rest with
      | [] =>
        popLabel
        return .opening .condition type :: body ++ [.closing]
      | [.list (.atom "else" :: orelse)] =>
        let orelse ← pieces names bound orelse
        popLabel
        return .opening .condition type :: body ++ .orelse :: orelse ++ [.closing]
      | _ => failure
    | .list (.atom word :: operand) :: rest => do
      let first ← folded names bound word operand
      return first ++ (← conditional names bound label type rest)
    | _ => failure

end

/-! ## From sequences to trees -/

/-- A body that is not closed yet. -/
structure OpenBody where
  /-- What was opened. -/
  what : Opening
  /-- Its type. -/
  type : BlockType
  /-- The first body of two, once it is complete. -/
  first : Option (List (Instr UInt32))
  /-- What came before it where it stands, the latest first. -/
  before : List (Instr UInt32)

/-- The instruction that a body ends. -/
def OpenBody.close (o : OpenBody) (body : List (Instr UInt32)) : Instr UInt32 :=
  match o.what, o.first with
  | .block, _ => .block o.type body
  | .loop, _ => .loop o.type body
  | .condition, none => .when o.type body
  | .condition, some first => .choose o.type first body

/-- The instructions that pieces form, inside of open bodies, the innermost first. What came before
in the innermost is given the latest first. -/
def nest (before : List (Instr UInt32)) : List OpenBody → List Piece →
    Option (List (Instr UInt32))
  | [], [] => some before.reverse
  | _ :: _, [] => none
  | bodies, .plain i :: ps => nest (i :: before) bodies ps
  | bodies, .opening what type :: ps => nest [] (⟨what, type, none, before⟩ :: bodies) ps
  | o :: bodies, .orelse :: ps =>
    if o.what = .condition ∧ o.first.isNone then
      nest [] ({ o with first := some before.reverse } :: bodies) ps
    else none
  | o :: bodies, .closing :: ps => nest (o.close before.reverse :: o.before) bodies ps
  | [], _ :: _ => none

/-- The instructions that trees are. -/
def instrs (names : Names) (ts : List Tree) : StateT Progress Option (List (Instr UInt32)) := do
  modify fun p => { p with labels := [] }
  nest [] [] (← pieces names (3 * Tree.size ts + 1) ts)

end Stampline.Wasm.Text
