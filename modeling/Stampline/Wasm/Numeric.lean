/-!
# Numeric operations

The operations on numbers: integers and floats of 32 and of 64 bits. They are listed in the order of
their opcodes, and the names by which text refers to them are made of the names of their parts.
-/

namespace Stampline.Wasm

/-- The number of bits of a number. -/
inductive Width where
  | w32 | w64
deriving DecidableEq, Repr

/-- The types of values. -/
inductive ValueType where
  | i32 | i64 | f32 | f64
  /-- A reference to a function, or to none. -/
  | funcRef
  /-- A reference to something of the host, or to nothing. -/
  | externRef
deriving DecidableEq, Repr, Inhabited

namespace ValueType

/-- The type of integers of a width. -/
def int : Width → ValueType
  | .w32 => i32
  | .w64 => i64

/-- The type of floats of a width. -/
def float : Width → ValueType
  | .w32 => f32
  | .w64 => f64

/-- Whether a type is that of references. -/
def isRef : ValueType → Bool
  | funcRef | externRef => true
  | _ => false

/-- The name of a type. -/
def name : ValueType → String
  | i32 => "i32"
  | i64 => "i64"
  | f32 => "f32"
  | f64 => "f64"
  | funcRef => "funcref"
  | externRef => "externref"

/-- All types. -/
def all : List ValueType := [i32, i64, f32, f64, funcRef, externRef]

end ValueType

/-- Arithmetic on integers. Division and shifts to the right are those of signed or of unsigned
integers. -/
inductive ArithOp where
  | add | sub | mul | divS | divU | remS | remU
  | and | or | xor | shl | shrS | shrU | rotl | rotr
deriving DecidableEq, Repr

namespace ArithOp

/-- The operations in the order of their opcodes. -/
def all : List ArithOp :=
  [add, sub, mul, divS, divU, remS, remU, and, or, xor, shl, shrS, shrU, rotl, rotr]

/-- The name of an operation. -/
def name : ArithOp → String
  | add => "add"
  | sub => "sub"
  | mul => "mul"
  | divS => "div_s"
  | divU => "div_u"
  | remS => "rem_s"
  | remU => "rem_u"
  | and => "and"
  | or => "or"
  | xor => "xor"
  | shl => "shl"
  | shrS => "shr_s"
  | shrU => "shr_u"
  | rotl => "rotl"
  | rotr => "rotr"

end ArithOp

/-- Comparison of integers, signed or unsigned. -/
inductive RelOp where
  | eq | ne | ltS | ltU | gtS | gtU | leS | leU | geS | geU
deriving DecidableEq, Repr

namespace RelOp

/-- The comparisons in the order of their opcodes. -/
def all : List RelOp := [eq, ne, ltS, ltU, gtS, gtU, leS, leU, geS, geU]

/-- The name of a comparison. -/
def name : RelOp → String
  | eq => "eq"
  | ne => "ne"
  | ltS => "lt_s"
  | ltU => "lt_u"
  | gtS => "gt_s"
  | gtU => "gt_u"
  | leS => "le_s"
  | leU => "le_u"
  | geS => "ge_s"
  | geU => "ge_u"

end RelOp

/-- What is counted in the bits of an integer. -/
inductive CountOp where
  /-- The zeros above all ones. -/
  | leading
  /-- The zeros below all ones. -/
  | trailing
  /-- The ones. -/
  | ones
deriving DecidableEq, Repr

namespace CountOp

/-- The counts in the order of their opcodes. -/
def all : List CountOp := [leading, trailing, ones]

/-- The name of a count. -/
def name : CountOp → String
  | leading => "clz"
  | trailing => "ctz"
  | ones => "popcnt"

end CountOp

/-- Comparison of floats. -/
inductive FloatRelOp where
  | eq | ne | lt | gt | le | ge
deriving DecidableEq, Repr

namespace FloatRelOp

/-- The comparisons in the order of their opcodes. -/
def all : List FloatRelOp := [eq, ne, lt, gt, le, ge]

/-- The name of a comparison. -/
def name : FloatRelOp → String
  | eq => "eq"
  | ne => "ne"
  | lt => "lt"
  | gt => "gt"
  | le => "le"
  | ge => "ge"

end FloatRelOp

/-- Operations on one float. -/
inductive FloatUnaryOp where
  | abs | neg | ceil | floor | trunc | nearest | sqrt
deriving DecidableEq, Repr

namespace FloatUnaryOp

/-- The operations in the order of their opcodes. -/
def all : List FloatUnaryOp := [abs, neg, ceil, floor, trunc, nearest, sqrt]

/-- The name of an operation. -/
def name : FloatUnaryOp → String
  | abs => "abs"
  | neg => "neg"
  | ceil => "ceil"
  | floor => "floor"
  | trunc => "trunc"
  | nearest => "nearest"
  | sqrt => "sqrt"

end FloatUnaryOp

/-- Operations on two floats. -/
inductive FloatBinaryOp where
  | add | sub | mul | div | min | max | copysign
deriving DecidableEq, Repr

namespace FloatBinaryOp

/-- The operations in the order of their opcodes. -/
def all : List FloatBinaryOp := [add, sub, mul, div, min, max, copysign]

/-- The name of an operation. -/
def name : FloatBinaryOp → String
  | add => "add"
  | sub => "sub"
  | mul => "mul"
  | div => "div"
  | min => "min"
  | max => "max"
  | copysign => "copysign"

end FloatBinaryOp

/-- An operation on numbers. -/
inductive Numeric where
  /-- Tests an integer for zero. -/
  | isZero (w : Width)
  /-- Compares integers. -/
  | compare (w : Width) (op : RelOp)
  /-- Compares floats. -/
  | floatCompare (w : Width) (op : FloatRelOp)
  /-- Counts bits of an integer. -/
  | count (w : Width) (op : CountOp)
  /-- Combines integers. -/
  | arith (w : Width) (op : ArithOp)
  /-- Changes a float. -/
  | floatUnary (w : Width) (op : FloatUnaryOp)
  /-- Combines floats. -/
  | floatBinary (w : Width) (op : FloatBinaryOp)
  /-- Narrows an integer of 64 bits to 32. -/
  | wrap
  /-- Widens an integer of 32 bits to 64. -/
  | extend (signed : Bool)
  /-- Makes an integer from a float, which has to have a place among the integers. -/
  | truncate (target source : Width) (signed : Bool)
  /-- Makes the nearest integer that there is from a float. -/
  | saturate (target source : Width) (signed : Bool)
  /-- Makes a float from an integer. -/
  | convert (target source : Width) (signed : Bool)
  /-- Narrows a float of 64 bits to 32. -/
  | demote
  /-- Widens a float of 32 bits to 64. -/
  | promote
  /-- Takes the bits of a float as an integer. -/
  | floatBits (w : Width)
  /-- Takes the bits of an integer as a float. -/
  | ofFloatBits (w : Width)
  /-- Repeats the sign of the lowest bytes of an integer in those above. -/
  | signExtend (w : Width) (bytes : Nat)
deriving DecidableEq, Repr

namespace Numeric

/-- The operations that have an opcode of one byte, in the order of the opcodes. -/
def listed : List Numeric :=
  Numeric.isZero .w32 :: RelOp.all.map (Numeric.compare .w32) ++
  Numeric.isZero .w64 :: RelOp.all.map (Numeric.compare .w64) ++
  FloatRelOp.all.map (Numeric.floatCompare .w32) ++
  FloatRelOp.all.map (Numeric.floatCompare .w64) ++
  CountOp.all.map (Numeric.count .w32) ++ ArithOp.all.map (Numeric.arith .w32) ++
  CountOp.all.map (Numeric.count .w64) ++ ArithOp.all.map (Numeric.arith .w64) ++
  FloatUnaryOp.all.map (Numeric.floatUnary .w32) ++
  FloatBinaryOp.all.map (Numeric.floatBinary .w32) ++
  FloatUnaryOp.all.map (Numeric.floatUnary .w64) ++
  FloatBinaryOp.all.map (Numeric.floatBinary .w64) ++
  ([.wrap,
    .truncate .w32 .w32 true, .truncate .w32 .w32 false,
    .truncate .w32 .w64 true, .truncate .w32 .w64 false,
    .extend true, .extend false,
    .truncate .w64 .w32 true, .truncate .w64 .w32 false,
    .truncate .w64 .w64 true, .truncate .w64 .w64 false,
    .convert .w32 .w32 true, .convert .w32 .w32 false,
    .convert .w32 .w64 true, .convert .w32 .w64 false, .demote,
    .convert .w64 .w32 true, .convert .w64 .w32 false,
    .convert .w64 .w64 true, .convert .w64 .w64 false, .promote,
    .floatBits .w32, .floatBits .w64, .ofFloatBits .w32, .ofFloatBits .w64,
    .signExtend .w32 1, .signExtend .w32 2,
    .signExtend .w64 1, .signExtend .w64 2, .signExtend .w64 4] : List Numeric)

/-- The opcode of the first operation. -/
def firstCode : Nat := 0x45

/-- The operations that have an opcode behind a prefix, in the order of these. -/
def listedBehind : List Numeric :=
  [.saturate .w32 .w32 true, .saturate .w32 .w32 false,
   .saturate .w32 .w64 true, .saturate .w32 .w64 false,
   .saturate .w64 .w32 true, .saturate .w64 .w32 false,
   .saturate .w64 .w64 true, .saturate .w64 .w64 false]

/-- The types of what an operation takes, the first operand first. -/
def params : Numeric → List ValueType
  | .isZero w | .count w _ | .signExtend w _ | .ofFloatBits w => [.int w]
  | .compare w _ | .arith w _ => [.int w, .int w]
  | .floatCompare w _ | .floatBinary w _ => [.float w, .float w]
  | .floatUnary w _ | .floatBits w => [.float w]
  | .wrap => [.i64]
  | .extend _ => [.i32]
  | .truncate _ w _ | .saturate _ w _ => [.float w]
  | .convert _ w _ => [.int w]
  | .demote => [.f64]
  | .promote => [.f32]

/-- The type of what an operation leaves. -/
def result : Numeric → ValueType
  | .isZero _ | .compare .. | .floatCompare .. => .i32
  | .count w _ | .arith w _ | .signExtend w _ | .floatBits w => .int w
  | .floatUnary w _ | .floatBinary w _ | .ofFloatBits w => .float w
  | .wrap => .i32
  | .extend _ => .i64
  | .truncate w _ _ | .saturate w _ _ => .int w
  | .convert w _ _ => .float w
  | .demote => .f32
  | .promote => .f64

/-- The end of a name that tells whether integers have signs. -/
def signName (signed : Bool) : String := if signed then "_s" else "_u"

/-- The name of an operation. -/
def name : Numeric → String
  | .isZero w => (ValueType.int w).name ++ ".eqz"
  | .compare w op => (ValueType.int w).name ++ "." ++ op.name
  | .floatCompare w op => (ValueType.float w).name ++ "." ++ op.name
  | .count w op => (ValueType.int w).name ++ "." ++ op.name
  | .arith w op => (ValueType.int w).name ++ "." ++ op.name
  | .floatUnary w op => (ValueType.float w).name ++ "." ++ op.name
  | .floatBinary w op => (ValueType.float w).name ++ "." ++ op.name
  | .wrap => "i32.wrap_i64"
  | .extend signed => "i64.extend_i32" ++ signName signed
  | .truncate target source signed =>
    (ValueType.int target).name ++ ".trunc_" ++ (ValueType.float source).name ++ signName signed
  | .saturate target source signed =>
    (ValueType.int target).name ++ ".trunc_sat_" ++ (ValueType.float source).name ++ signName signed
  | .convert target source signed =>
    (ValueType.float target).name ++ ".convert_" ++ (ValueType.int source).name ++ signName signed
  | .demote => "f32.demote_f64"
  | .promote => "f64.promote_f32"
  | .floatBits w => (ValueType.int w).name ++ ".reinterpret_" ++ (ValueType.float w).name
  | .ofFloatBits w => (ValueType.float w).name ++ ".reinterpret_" ++ (ValueType.int w).name
  | .signExtend w bytes => (ValueType.int w).name ++ ".extend" ++ toString (8 * bytes) ++ "_s"

end Numeric

end Stampline.Wasm
