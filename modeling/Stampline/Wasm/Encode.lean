import Stampline.Wasm.Basic
import Stampline.Wasm.Leb

/-!
# Modules as bytes

The binary format of modules. A section is its number, the size of its contents and the contents;
sections with nothing to say are left out, unless they concern functions and their exports.
-/

namespace Stampline.Wasm

/-- The bytes of a text. -/
def textBytes (s : String) : List UInt8 := s.toUTF8.toList

/-- A sequence behind its length. -/
def encodeVec {α : Type} (encode : α → List UInt8) (xs : List α) : List UInt8 :=
  unsignedLeb xs.length ++ xs.flatMap encode

/-- Bytes behind their number. -/
def encodeSized (bytes : List UInt8) : List UInt8 := unsignedLeb bytes.length ++ bytes

/-- A name, as its bytes behind their number. -/
def encodeName (s : String) : List UInt8 := encodeSized (textBytes s)

/-- The byte of a type of values. -/
def ValueType.code : ValueType → UInt8
  | i32 => 0x7f
  | i64 => 0x7e
  | f32 => 0x7d
  | f64 => 0x7c
  | funcRef => 0x70
  | externRef => 0x6f

/-- The bytes of the type of a block. -/
def BlockType.encode : BlockType → List UInt8
  | none => [0x40]
  | value type => [type.code]
  | func type => signedLeb type

/-- The bytes of an operation on numbers. -/
def Numeric.encode (op : Numeric) : List UInt8 :=
  match op with
  | .saturate .. => 0xfc :: unsignedLeb (listedBehind.idxOf op)
  | _ => [UInt8.ofNat (firstCode + listed.idxOf op)]

/-- The bytes of a place in memory. Bit 6 of the first number tells that the index of the memory
follows. -/
def MemArg.encode (p : MemArg) : List UInt8 :=
  (if p.memory = 0 then unsignedLeb p.align else unsignedLeb (p.align + 64) ++ unsignedLeb p.memory)
    ++ unsignedLeb p.offset

/-- The opcode of a load. -/
def Access.loadCode (a : Access) : UInt8 := UInt8.ofNat (firstLoad + loads.idxOf a)

/-- The opcode of a store. -/
def Access.storeCode (a : Access) : UInt8 := UInt8.ofNat (firstStore + stores.idxOf a)

/-- An instruction behind the prefix for further instructions: its number and its immediates. -/
def encodeFurther (number : Nat) (immediates : List Nat) : List UInt8 :=
  0xfc :: (unsignedLeb number ++ immediates.flatMap unsignedLeb)

mutual

/-- The bytes of an instruction. -/
def Instr.encode : Instr UInt32 → List UInt8
  | .unreachable => [0x00]
  | .nop => [0x01]
  | .block type body => 0x02 :: (type.encode ++ encodeInstrs body ++ [0x0b])
  | .loop type body => 0x03 :: (type.encode ++ encodeInstrs body ++ [0x0b])
  | .when type body => 0x04 :: (type.encode ++ encodeInstrs body ++ [0x0b])
  | .choose type body orelse =>
    0x04 :: (type.encode ++ encodeInstrs body ++ 0x05 :: (encodeInstrs orelse ++ [0x0b]))
  | .br depth => 0x0c :: unsignedLeb depth
  | .brIf depth => 0x0d :: unsignedLeb depth
  | .brTable depths last => 0x0e :: (encodeVec unsignedLeb depths ++ unsignedLeb last)
  | .ret => [0x0f]
  | .call func => 0x10 :: unsignedLeb func
  | .callIndirect type table => 0x11 :: (unsignedLeb type ++ unsignedLeb table)
  | .tailCall func => 0x12 :: unsignedLeb func
  | .tailCallIndirect type table => 0x13 :: (unsignedLeb type ++ unsignedLeb table)
  | .drop => [0x1a]
  | .select none => [0x1b]
  | .select (some type) => [0x1c, 0x01, type.code]
  | .localGet slot => 0x20 :: unsignedLeb slot
  | .localSet slot => 0x21 :: unsignedLeb slot
  | .localTee slot => 0x22 :: unsignedLeb slot
  | .globalGet index => 0x23 :: unsignedLeb index
  | .globalSet index => 0x24 :: unsignedLeb index
  | .tableGet table => 0x25 :: unsignedLeb table
  | .tableSet table => 0x26 :: unsignedLeb table
  | .load access place => access.loadCode :: place.encode
  | .store access place => access.storeCode :: place.encode
  | .memorySize memory => 0x3f :: unsignedLeb memory
  | .memoryGrow memory => 0x40 :: unsignedLeb memory
  | .const32 value => 0x41 :: signedLeb value.toInt32.toInt
  | .const64 value => 0x42 :: signedLeb value.toInt
  | .constFloat32 bits => 0x43 :: littleEndian bits.toNat 4
  | .constFloat64 bits => 0x44 :: littleEndian bits.toNat 8
  | .numeric op => op.encode
  | .refNull type => [0xd0, type.code]
  | .refIsNull => [0xd1]
  | .refFunc func => 0xd2 :: unsignedLeb func
  | .memoryInit segment memory => encodeFurther 8 [segment, memory]
  | .dataDrop segment => encodeFurther 9 [segment]
  | .memoryCopy target source => encodeFurther 10 [target, source]
  | .memoryFill memory => encodeFurther 11 [memory]
  | .tableInit segment table => encodeFurther 12 [segment, table]
  | .elemDrop segment => encodeFurther 13 [segment]
  | .tableCopy target source => encodeFurther 14 [target, source]
  | .tableGrow table => encodeFurther 15 [table]
  | .tableSize table => encodeFurther 16 [table]
  | .tableFill table => encodeFurther 17 [table]

/-- The bytes of instructions. -/
def encodeInstrs : List (Instr UInt32) → List UInt8
  | [] => []
  | i :: is => i.encode ++ encodeInstrs is

end

/-- The bytes of code that is computed before anything runs. -/
def encodeConstant (c : Constant) : List UInt8 := encodeInstrs c ++ [0x0b]

/-- The bytes of a function type. -/
def FuncType.encode (t : FuncType) : List UInt8 :=
  0x60 :: (encodeVec (fun v => [v.code]) t.params ++ encodeVec (fun v => [v.code]) t.results)

/-- The bytes of an import. -/
def Import.encode (i : Import) : List UInt8 :=
  encodeName i.space ++ encodeName i.name ++ 0x00 :: unsignedLeb i.type

/-- The bytes of the size of a memory or of a table. -/
def Limits.encode (l : Limits) : List UInt8 :=
  let kind : UInt8 := if l.wide then 0x04 else 0x00
  match l.max with
  | none => kind :: unsignedLeb l.min
  | some max => (kind + 1) :: (unsignedLeb l.min ++ unsignedLeb max)

/-- The bytes of the type of a table. -/
def TableType.encode (t : TableType) : List UInt8 := t.entry.code :: t.limits.encode

/-- The bytes of a global. -/
def Global.encode (g : Global) : List UInt8 :=
  [g.type.code, if g.isMutable then 0x01 else 0x00] ++ encodeConstant g.value

/-- The byte of a kind of exports. -/
def ExportKind.code : ExportKind → UInt8
  | func => 0x00
  | table => 0x01
  | memory => 0x02
  | global => 0x03

/-- The bytes of an export. -/
def Export.encode (e : Export) : List UInt8 :=
  encodeName e.name ++ e.kind.code :: unsignedLeb e.index

/-- The bytes of a run of locals. -/
def encodeRun (run : Nat × ValueType) : List UInt8 := unsignedLeb run.1 ++ [run.2.code]

/-- The bytes of the code of a function. -/
def Func.encode (f : Func UInt32) : List UInt8 :=
  encodeSized (encodeVec encodeRun f.locals ++ encodeInstrs f.body ++ [0x0b])

/-- The bytes of a segment of references. -/
def ElemSegment.encode (s : ElemSegment) : List UInt8 :=
  let items := s.type.code :: encodeVec encodeConstant s.items
  match s.mode with
  | .passive => 0x05 :: items
  | .declared => 0x07 :: items
  | .active table offset => 0x06 :: (unsignedLeb table ++ encodeConstant offset ++ items)

/-- The bytes of a segment of bytes. -/
def Segment.encode (s : Segment) : List UInt8 :=
  match s.mode with
  | .active 0 offset => 0x00 :: (encodeConstant offset ++ encodeSized s.bytes)
  | .active memory offset =>
    0x02 :: (unsignedLeb memory ++ encodeConstant offset ++ encodeSized s.bytes)
  | _ => 0x01 :: encodeSized s.bytes

/-- A section. -/
def encodeSection (number : UInt8) (contents : List UInt8) : List UInt8 :=
  number :: encodeSized contents

/-- A section that is a sequence, left out if that is empty. -/
def encodeUnlessEmpty {α : Type} (number : UInt8) (encode : α → List UInt8) (xs : List α) :
    List UInt8 :=
  if xs.isEmpty then [] else encodeSection number (encodeVec encode xs)

/-- What every module begins with: the format and its version. -/
def preamble : List UInt8 := [0x00, 0x61, 0x73, 0x6d, 0x01, 0x00, 0x00, 0x00]

/-- The bytes of a module. -/
def Module.encode (m : Module) : List UInt8 :=
  preamble ++
    encodeSection 1 (encodeVec FuncType.encode m.types) ++
    encodeSection 2 (encodeVec Import.encode m.imports) ++
    encodeSection 3 (encodeVec (fun f => unsignedLeb f.type) m.funcs) ++
    encodeUnlessEmpty 4 TableType.encode m.tables ++
    encodeUnlessEmpty 5 Limits.encode m.memories ++
    encodeUnlessEmpty 6 Global.encode m.globals ++
    encodeSection 7 (encodeVec Export.encode m.exports) ++
    (match m.start with
      | none => []
      | some func => encodeSection 8 (unsignedLeb func)) ++
    encodeUnlessEmpty 9 ElemSegment.encode m.elems ++
    (match m.dataCount with
      | none => []
      | some count => encodeSection 12 (unsignedLeb count)) ++
    encodeSection 10 (encodeVec Func.encode m.funcs) ++
    encodeUnlessEmpty 11 Segment.encode m.data

end Stampline.Wasm
