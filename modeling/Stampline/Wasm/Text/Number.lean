import Stampline.Wasm.Text.Token
import Stampline.Wasm.Float

/-!
# Numbers in the text format

Integers are decimal or hexadecimal, with an optional sign; floats have a fraction and an exponent,
which is one of ten in decimal and of two in hexadecimal. Underscores may stand between digits. A
float is the nearest one to the number that is written; what is too large for all of them is not
written as a number.
-/

namespace Stampline.Wasm.Text

/-- The sign of a number that is written, if it has one, and what follows it. -/
def splitSign : List Char → Option Bool × List Char
  | '+' :: cs => (some false, cs)
  | '-' :: cs => (some true, cs)
  | cs => (none, cs)

/-- The natural number that characters without a sign are. -/
def natural? : List Char → Option Nat
  | '0' :: 'x' :: cs => digits? 16 cs
  | cs => digits? 10 cs

/-- The natural number below a bound that an atom is. -/
def naturalBelow? (bound : Nat) (atom : String) : Option Nat := do
  let (sign, cs) := splitSign atom.toList
  let n ← natural? cs
  if sign ≠ some true ∧ n < bound then n else none

/-- The index that an atom is. -/
def index? (atom : String) : Option Nat := naturalBelow? 0x100000000 atom

/-- The integer of `bits` bits that an atom is. Without a minus sign it may also be one that is too
large for a signed integer. -/
def integer? (bits : Nat) (atom : String) : Option Int := do
  let (sign, cs) := splitSign atom.toList
  let n ← natural? cs
  let half := Nat.pow 2 (bits - 1)
  if sign = some true then
    if n ≤ half then some (-n) else none
  else if n < 2 * half then some n
  else none

/-! ## Floats -/

/-- Splits characters at the first of those for which `p` holds, which is dropped. -/
def splitAt (p : Char → Bool) (cs : List Char) : List Char × Option (List Char) :=
  let first := cs.takeWhile (!p ·)
  (first, (cs.drop first.length).tail?)

/-- The digits of a fraction that is written, which may be missing. -/
def fraction? (base : Nat) : Option (List Char) → Option (Nat × Nat)
  | none | some [] => some (0, 0)
  | some cs => (digits? base cs).map (·, (cs.filter (· ≠ '_')).length)

/-- The exponent that is written, which may be missing as a whole. -/
def exponent? : Option (List Char) → Option Int
  | none => some 0
  | some cs => do
    let (sign, cs) := splitSign cs
    let n ← digits? 10 cs
    return if sign = some true then -n else n

/-- A number that is written: an integer times a power of the base of its exponent. -/
structure Scaled where
  /-- The integer. -/
  mantissa : Nat
  /-- The exponent. -/
  exponent : Int

/-- The number that characters without a sign are in a base, with the exponent behind one of the
given characters. A digit of the fraction counts for `weight` in the exponent. -/
def scaled? (base : Nat) (mark : Char → Bool) (weight : Nat) (cs : List Char) : Option Scaled := do
  let (number, exponent) := splitAt mark cs
  let (whole, fraction) := splitAt (· = '.') number
  let whole ← digits? base whole
  let (fraction, count) ← fraction? base fraction
  let exponent ← exponent? exponent
  return ⟨whole * Nat.pow base count + fraction, exponent - (weight * count : Nat)⟩

/-- The exponents of ten beyond which no float lies, whatever its digits; the number of these is to
be added. -/
def farExponent : Nat := 400

/-- The float nearest to an integer times a power of ten, without a sign. -/
def ofDecimal (F : FloatFormat) (s : Scaled) : Nat :=
  let digits := s.mantissa.log2
  if s.mantissa = 0 then 0
  else if (farExponent : Int) < s.exponent then F.infinity
  else if s.exponent < -(farExponent + digits : Nat) then 0
  else if 0 ≤ s.exponent then F.round (s.mantissa * Nat.pow 10 s.exponent.toNat) 0 false
  else F.ofQuotient s.mantissa (Nat.pow 10 (-s.exponent).toNat) 0

/-- The greatest exponent of two that may be written. -/
def maxExponent : Nat := 0x7fffffff

/-- The magnitude of the float that characters without a sign are. -/
def magnitude? (F : FloatFormat) (cs : List Char) : Option Nat :=
  let finite (bits : Nat) : Option Nat := if bits < F.infinity then some bits else none
  match cs with
  | ['i', 'n', 'f'] => some F.infinity
  | ['n', 'a', 'n'] => some (F.infinity + F.quietBit)
  | 'n' :: 'a' :: 'n' :: ':' :: '0' :: 'x' :: cs => do
    let payload ← digits? 16 cs
    if 0 < payload ∧ payload < Nat.pow 2 F.fraction then some (F.infinity + payload) else none
  | '0' :: 'x' :: cs => do
    let s ← scaled? 16 (fun c => c = 'p' || c = 'P') 4 cs
    if maxExponent < s.exponent.natAbs then none else finite (F.round s.mantissa s.exponent false)
  | cs => do
    let s ← scaled? 10 (fun c => c = 'e' || c = 'E') 1 cs
    finite (ofDecimal F s)

/-- The bits of the float that an atom is. -/
def floatBits? (F : FloatFormat) (atom : String) : Option Nat :=
  let (sign, cs) := splitSign atom.toList
  (magnitude? F cs).map (F.withSign (sign = some true))

end Stampline.Wasm.Text
