import Stampline.Wasm.Basic
import Stampline.Wasm.Float
import Stampline.Host.Environment

/-!
# Arithmetic on values

Values, and what the operations on numbers make of them. Addition, subtraction and multiplication of
integers wrap; division truncates. Floats are kept as their bits.
-/

namespace Stampline.Wasm

/-- A value. -/
inductive Value where
  | i32 (value : UInt32)
  | i64 (value : Int64)
  | f32 (bits : UInt32)
  | f64 (bits : UInt64)
  /-- A reference to a function, given by its index, or to none. -/
  | func (index : Option Nat)
  /-- The reference to nothing of the host. There are no others here. -/
  | nothing
deriving DecidableEq, Repr

instance : Inhabited Value := ⟨.i64 0⟩

namespace Value

/-- The value that a local starts with. -/
def zero : ValueType → Value
  | .i32 => .i32 0
  | .i64 => .i64 0
  | .f32 => .f32 0
  | .f64 => .f64 0
  | .funcRef => .func none
  | .externRef => .nothing

/-- Whether a value is a reference to nothing. -/
def isNull : Value → Bool
  | .func none | .nothing => true
  | _ => false

/-- The natural number that an integer is when it has no sign. -/
def unsigned? : Value → Option Nat
  | .i32 value => some value.toNat
  | .i64 value => some value.toUInt64.toNat
  | _ => none

/-- The integer of a width that is congruent to a number. -/
def ofInt (n : Int) : Width → Value
  | .w32 => .i32 (Int32.ofInt n).toUInt32
  | .w64 => .i64 (Int64.ofInt n)

/-- The float of a width that has the given bits. -/
def ofBits (bits : Nat) : Width → Value
  | .w32 => .f32 (UInt32.ofNat bits)
  | .w64 => .f64 (UInt64.ofNat bits)

/-- The integer that is the size of something, in the type of its addresses. -/
def ofSize (n : Nat) (limits : Limits) : Value :=
  if limits.wide then .i64 (Int64.ofNat n) else .i32 (UInt32.ofNat n)

/-- What growing yields that fails. -/
def noSize (limits : Limits) : Value := if limits.wide then .i64 (-1) else .i32 0xffffffff

end Value

/-- The word of 32 bits that a truth value is. -/
def ofBool (b : Bool) : UInt32 := if b then 1 else 0

/-! ## Integers of 64 bits -/

/-- The result of an operation on integers of 64 bits. The least integer cannot be divided by minus
one. -/
def ArithOp.apply (a b : Int64) : ArithOp → Except Fault Int64
  | add => .ok (a + b)
  | sub => .ok (a - b)
  | mul => .ok (a * b)
  | divS =>
    if b = 0 then .error .divisionByZero
    else if a = Int64.minValue ∧ b = -1 then .error .overflow
    else .ok (a / b)
  | divU => if b = 0 then .error .divisionByZero else .ok (a.toUInt64 / b.toUInt64).toInt64
  | remS => if b = 0 then .error .divisionByZero else .ok (a % b)
  | remU => if b = 0 then .error .divisionByZero else .ok (a.toUInt64 % b.toUInt64).toInt64
  | and => .ok (a &&& b)
  | or => .ok (a ||| b)
  | xor => .ok (a ^^^ b)
  | shl => .ok (a.toUInt64 <<< b.toUInt64).toInt64
  | shrS => .ok (a >>> (b.toUInt64 % 64).toInt64)
  | shrU => .ok (a.toUInt64 >>> b.toUInt64).toInt64
  | rotl => .ok (a.toUInt64 <<< b.toUInt64 ||| a.toUInt64 >>> (64 - b.toUInt64 % 64)).toInt64
  | rotr => .ok (a.toUInt64 >>> b.toUInt64 ||| a.toUInt64 <<< (64 - b.toUInt64 % 64)).toInt64

/-- Whether a comparison of integers of 64 bits holds. -/
def RelOp.holds (a b : Int64) : RelOp → Bool
  | eq => a == b
  | ne => a != b
  | ltS => decide (a < b)
  | ltU => decide (a.toUInt64 < b.toUInt64)
  | gtS => decide (b < a)
  | gtU => decide (b.toUInt64 < a.toUInt64)
  | leS => decide (a ≤ b)
  | leU => decide (a.toUInt64 ≤ b.toUInt64)
  | geS => decide (b ≤ a)
  | geU => decide (b.toUInt64 ≤ a.toUInt64)

/-! ## Integers of 32 bits -/

/-- The result of an operation on integers of 32 bits. -/
def ArithOp.apply32 (a b : UInt32) : ArithOp → Except Fault UInt32
  | add => .ok (a + b)
  | sub => .ok (a - b)
  | mul => .ok (a * b)
  | divS =>
    if b = 0 then .error .divisionByZero
    else if a = 0x80000000 ∧ b = 0xffffffff then .error .overflow
    else .ok (a.toInt32 / b.toInt32).toUInt32
  | divU => if b = 0 then .error .divisionByZero else .ok (a / b)
  | remS => if b = 0 then .error .divisionByZero else .ok (a.toInt32 % b.toInt32).toUInt32
  | remU => if b = 0 then .error .divisionByZero else .ok (a % b)
  | and => .ok (a &&& b)
  | or => .ok (a ||| b)
  | xor => .ok (a ^^^ b)
  | shl => .ok (a <<< b)
  | shrS => .ok (a.toInt32 >>> (b % 32).toInt32).toUInt32
  | shrU => .ok (a >>> b)
  | rotl => .ok (a <<< b ||| a >>> (32 - b % 32))
  | rotr => .ok (a >>> b ||| a <<< (32 - b % 32))

/-- Whether a comparison of integers of 32 bits holds. -/
def RelOp.holds32 (a b : UInt32) : RelOp → Bool
  | eq => a == b
  | ne => a != b
  | ltS => decide (a.toInt32 < b.toInt32)
  | ltU => decide (a < b)
  | gtS => decide (b.toInt32 < a.toInt32)
  | gtU => decide (b < a)
  | leS => decide (a.toInt32 ≤ b.toInt32)
  | leU => decide (a ≤ b)
  | geS => decide (b.toInt32 ≤ a.toInt32)
  | geU => decide (b ≤ a)

/-! ## Bits -/

/-- The number of ones among the lowest `width` bits of a number. -/
def onesBelow (n : Nat) : Nat → Nat
  | 0 => 0
  | width + 1 => (n / Nat.pow 2 width) % 2 + onesBelow n width

/-- What is counted in the bits of an integer of `width` bits. -/
def CountOp.apply (width n : Nat) : CountOp → Nat
  | leading => if n = 0 then width else width - 1 - n.log2
  | trailing => if n = 0 then width else ((List.range width).find? n.testBit).getD width
  | ones => onesBelow n width

/-- The number whose lowest `bits` bits are those of `n` and whose others repeat the highest of
them. -/
def signExtended (n bits : Nat) : Int := Int.bmod n (Nat.pow 2 bits)

/-! ## Floats as integers -/

/-- The least integer of a width, signed or not. -/
def leastInt (w : Width) (signed : Bool) : Int :=
  match w, signed with
  | _, false => 0
  | .w32, true => -0x80000000
  | .w64, true => -0x8000000000000000

/-- The greatest integer of a width, signed or not. -/
def greatestInt (w : Width) (signed : Bool) : Int :=
  match w, signed with
  | .w32, true => 0x7fffffff
  | .w64, true => 0x7fffffffffffffff
  | .w32, false => 0xffffffff
  | .w64, false => 0xffffffffffffffff

/-- The integer of a width that a float is truncated to. -/
def truncateFloat (F : FloatFormat) (w : Width) (signed : Bool) (a : Nat) : Except Fault Value :=
  if F.isNaN a then .error .badConversion
  else if F.isInfinite a then .error .overflow
  else
    let n := F.truncated a
    if leastInt w signed ≤ n ∧ n ≤ greatestInt w signed then .ok (.ofInt n w)
    else .error .overflow

/-- The integer of a width that is nearest to what a float is truncated to. -/
def saturateFloat (F : FloatFormat) (w : Width) (signed : Bool) (a : Nat) : Value :=
  let bound := if F.isNegative a then leastInt w signed else greatestInt w signed
  if F.isNaN a then .ofInt 0 w
  else if F.isInfinite a then .ofInt bound w
  else
    let n := F.truncated a
    if leastInt w signed ≤ n ∧ n ≤ greatestInt w signed then .ofInt n w else .ofInt bound w

/-! ## All operations -/

/-- The bits of a float of a width. -/
def Value.bits? : Width → Value → Option Nat
  | .w32, .f32 bits => some bits.toNat
  | .w64, .f64 bits => some bits.toNat
  | _, _ => none

/-- An integer of a width as a number, signed or not. -/
def Value.int? : Width → Bool → Value → Option Int
  | .w32, true, .i32 a => some a.toInt32.toInt
  | .w32, false, .i32 a => some a.toNat
  | .w64, true, .i64 a => some a.toInt
  | .w64, false, .i64 a => some a.toUInt64.toNat
  | _, _, _ => none

/-- The value of an operation on one float, if its operand is one. -/
def onFloat (w : Width) (f : FloatFormat → Nat → Except Fault Value) (a : Value) :
    Option (Except Fault Value) :=
  (a.bits? w).map (f (.ofWidth w))

/-- The value of an operation on two floats, if its operands are floats. -/
def onFloats (w : Width) (f : FloatFormat → Nat → Nat → Value) (a b : Value) :
    Option (Except Fault Value) := do
  return .ok (f (.ofWidth w) (← a.bits? w) (← b.bits? w))

/-- The value of an operation on numbers that are on top of a stack, and the stack below them.
There is none if the operands are not of the right types. -/
def Numeric.apply (op : Numeric) (stack : List Value) :
    Option (Except Fault Value × List Value) :=
  match op, stack with
  | .isZero .w64, .i64 a :: rest => some (.ok (.i32 (ofBool (a == 0))), rest)
  | .isZero .w32, .i32 a :: rest => some (.ok (.i32 (ofBool (a == 0))), rest)
  | .compare .w64 op, .i64 b :: .i64 a :: rest => some (.ok (.i32 (ofBool (op.holds a b))), rest)
  | .compare .w32 op, .i32 b :: .i32 a :: rest => some (.ok (.i32 (ofBool (op.holds32 a b))), rest)
  | .arith .w64 op, .i64 b :: .i64 a :: rest => some ((op.apply a b).map .i64, rest)
  | .arith .w32 op, .i32 b :: .i32 a :: rest => some ((op.apply32 a b).map .i32, rest)
  | .extend false, .i32 a :: rest => some (.ok (.i64 (Int64.ofNat a.toNat)), rest)
  | .extend true, .i32 a :: rest => some (.ok (.i64 a.toInt32.toInt64), rest)
  | .wrap, .i64 a :: rest => some (.ok (.i32 a.toUInt64.toUInt32), rest)
  | .count .w32 op, .i32 a :: rest => some (.ok (.ofInt (op.apply 32 a.toNat) .w32), rest)
  | .count .w64 op, .i64 a :: rest =>
    some (.ok (.ofInt (op.apply 64 a.toUInt64.toNat) .w64), rest)
  | .signExtend .w32 bytes, .i32 a :: rest =>
    some (.ok (.ofInt (signExtended a.toNat (8 * bytes)) .w32), rest)
  | .signExtend .w64 bytes, .i64 a :: rest =>
    some (.ok (.ofInt (signExtended a.toUInt64.toNat (8 * bytes)) .w64), rest)
  | .floatCompare w op, b :: a :: rest =>
    (onFloats w (fun F a b => .i32 (ofBool (F.holds op a b))) a b).map (·, rest)
  | .floatBinary w op, b :: a :: rest =>
    (onFloats w (fun F a b => .ofBits (F.binary op a b) w) a b).map (·, rest)
  | .floatUnary w op, a :: rest =>
    (onFloat w (fun F a => .ok (.ofBits (F.unary op a) w)) a).map (·, rest)
  | .truncate w v signed, a :: rest =>
    (onFloat v (fun F a => truncateFloat F w signed a) a).map (·, rest)
  | .saturate w v signed, a :: rest =>
    (onFloat v (fun F a => .ok (saturateFloat F w signed a)) a).map (·, rest)
  | .convert w v signed, a :: rest =>
    (a.int? v signed).map fun n => (.ok (.ofBits ((FloatFormat.ofWidth w).ofInt n) w), rest)
  | .demote, a :: rest =>
    (onFloat .w64 (fun F a => .ok (.ofBits ((FloatFormat.ofWidth .w32).ofFormat F a) .w32)) a).map
      (·, rest)
  | .promote, a :: rest =>
    (onFloat .w32 (fun F a => .ok (.ofBits ((FloatFormat.ofWidth .w64).ofFormat F a) .w64)) a).map
      (·, rest)
  | .floatBits w, a :: rest => (onFloat w (fun _ a => .ok (.ofInt a w)) a).map (·, rest)
  | .ofFloatBits w, a :: rest =>
    (a.int? w false).map fun n => (.ok (.ofBits n.toNat w), rest)
  | _, _ => none

end Stampline.Wasm
