import Stampline.Wasm.Numeric

/-!
# Floats

Floats of a format are kept as their bits, in natural numbers. A finite float is an integer times a
power of two, and every operation on finite floats is exact, followed by one rounding to the nearest
float, with ties to the even one.

What is not a number stays so: an operation yields its first operand that is not a number, made
quiet, and an operation that has no result yields `invalid`.
-/

namespace Stampline.Wasm

/-- A format of floats. -/
structure FloatFormat where
  /-- The number of bits of the fraction. -/
  fraction : Nat
  /-- The number of bits of the exponent. -/
  exponent : Nat
deriving DecidableEq, Repr

namespace FloatFormat

/-- The format of floats of a width. -/
def ofWidth : Width → FloatFormat
  | .w32 => ⟨23, 8⟩
  | .w64 => ⟨52, 11⟩

variable (F : FloatFormat)

/-- The least power of two that a float is a multiple of. -/
def least : Int := 2 - Nat.pow 2 (F.exponent - 1) - F.fraction

/-- The bit of the sign. -/
def signBit : Nat := Nat.pow 2 (F.fraction + F.exponent)

/-- The bits of infinity. -/
def infinity : Nat := (Nat.pow 2 F.exponent - 1) * Nat.pow 2 F.fraction

/-- The bit that quiet floats have that are no numbers. -/
def quietBit : Nat := Nat.pow 2 (F.fraction - 1)

/-- What an operation yields that has no result. -/
def invalid : Nat := F.signBit + F.infinity + F.quietBit

/-- Whether the sign of a float is that of negative numbers. -/
def isNegative (bits : Nat) : Bool := decide (F.signBit ≤ bits)

/-- A float without its sign. -/
def magnitude (bits : Nat) : Nat := bits % F.signBit

/-- A float with the given sign. -/
def withSign (negative : Bool) (magnitude : Nat) : Nat :=
  if negative then F.signBit + magnitude else magnitude

/-- Whether a float is not a number. -/
def isNaN (bits : Nat) : Bool := decide (F.infinity < F.magnitude bits)

/-- Whether a float is an infinity. -/
def isInfinite (bits : Nat) : Bool := F.magnitude bits == F.infinity

/-- A float that is not a number, made quiet. -/
def quiet (bits : Nat) : Nat := bits ||| F.quietBit

/-! ## Finite floats -/

/-- The integer whose product with a power of two is the magnitude of a finite float. -/
def mantissa (bits : Nat) : Nat :=
  let field := F.magnitude bits / Nat.pow 2 F.fraction
  let fraction := bits % Nat.pow 2 F.fraction
  if field = 0 then fraction else fraction + Nat.pow 2 F.fraction

/-- The exponent of this power of two. -/
def scale (bits : Nat) : Int :=
  let field := F.magnitude bits / Nat.pow 2 F.fraction
  if field = 0 then F.least else F.least + (field - 1 : Nat)

/-- The mantissa of a float with its sign. -/
def signedMantissa (bits : Nat) : Int :=
  if F.isNegative bits then -(F.mantissa bits : Int) else F.mantissa bits

/-- The quotient of a number by a power of two, rounded to the nearest integer. `rest` tells that
the number is a little less than what is to be divided. -/
def roundShift (n shift : Nat) (rest : Bool) : Nat :=
  if n.log2 + 1 < shift then 0
  else
    let low := n % Nat.pow 2 shift
    let floor := n / Nat.pow 2 shift
    if 2 * low < Nat.pow 2 shift then floor
    else if Nat.pow 2 shift < 2 * low ∨ rest ∨ floor % 2 = 1 then floor + 1
    else floor

/-- The float nearest to `n * 2 ^ scale`, without a sign; `rest` tells that what is to be rounded is
a little more than that, and then `n` has more bits than a mantissa. -/
def round (n : Nat) (scale : Int) (rest : Bool) : Nat :=
  if n = 0 then 0
  else
    let bits := n.log2 + 1
    let unit := max (scale + bits - (F.fraction + 1)) F.least
    let mantissa :=
      if unit ≤ scale then n * Nat.pow 2 (scale - unit).toNat
      else roundShift n (unit - scale).toNat rest
    min ((unit - F.least).toNat * Nat.pow 2 F.fraction + mantissa) F.infinity

/-- The float nearest to an integer times a power of two. A sum that vanishes has the sign of
`zeroSign`. -/
def ofScaled (n : Int) (scale : Int) (zeroSign : Bool) : Nat :=
  if n = 0 then F.withSign zeroSign 0
  else F.withSign (decide (n < 0)) (F.round n.natAbs scale false)

/-- The float nearest to a quotient of natural numbers times a power of two, without a sign. -/
def ofQuotient (n d : Nat) (scale : Int) : Nat :=
  let more := F.fraction + 3 + d.log2 + 1 - n.log2
  let wide := n * Nat.pow 2 more
  F.round (wide / d) (scale - more) (decide (wide % d ≠ 0))

/-- The greatest integer whose square is at most `n`, given one whose square is greater, found in
`fuel` steps. -/
def rootBelow (n : Nat) : Nat → Nat → Nat
  | 0, guess => guess
  | fuel + 1, guess =>
    let next := (guess + n / guess) / 2
    if guess ≤ next then guess else rootBelow n fuel next

/-- The greatest integer whose square is at most `n`. -/
def root (n : Nat) : Nat :=
  if n = 0 then 0 else rootBelow n (n.log2 + 2) (Nat.pow 2 (n.log2 / 2 + 1))

/-! ## Operations -/

/-- Yields the first operand that is not a number, or else goes on. -/
def unlessNaN (a b : Nat) (otherwise : Nat) : Nat :=
  if F.isNaN a then F.quiet a else if F.isNaN b then F.quiet b else otherwise

/-- A sum. -/
def add (a b : Nat) : Nat :=
  F.unlessNaN a b <|
    if F.isInfinite a then
      if F.isInfinite b ∧ F.isNegative a ≠ F.isNegative b then F.invalid else a
    else if F.isInfinite b then b
    else
      let scale := min (F.scale a) (F.scale b)
      F.ofScaled
        (F.signedMantissa a * Nat.pow 2 (F.scale a - scale).toNat +
          F.signedMantissa b * Nat.pow 2 (F.scale b - scale).toNat)
        scale (F.isNegative a && F.isNegative b)

/-- A float with the other sign. -/
def neg (a : Nat) : Nat := F.withSign (!F.isNegative a) (F.magnitude a)

/-- A difference. -/
def sub (a b : Nat) : Nat := F.unlessNaN a b (F.add a (F.neg b))

/-- A product. -/
def mul (a b : Nat) : Nat :=
  let sign := F.isNegative a != F.isNegative b
  F.unlessNaN a b <|
    if F.isInfinite a ∨ F.isInfinite b then
      if F.magnitude a = 0 ∨ F.magnitude b = 0 then F.invalid else F.withSign sign F.infinity
    else F.withSign sign (F.round (F.mantissa a * F.mantissa b) (F.scale a + F.scale b) false)

/-- A quotient. -/
def div (a b : Nat) : Nat :=
  let sign := F.isNegative a != F.isNegative b
  F.unlessNaN a b <|
    if F.isInfinite a then
      if F.isInfinite b then F.invalid else F.withSign sign F.infinity
    else if F.isInfinite b then F.withSign sign 0
    else if F.magnitude b = 0 then
      if F.magnitude a = 0 then F.invalid else F.withSign sign F.infinity
    else if F.magnitude a = 0 then F.withSign sign 0
    else F.withSign sign (F.ofQuotient (F.mantissa a) (F.mantissa b) (F.scale a - F.scale b))

/-- A square root. -/
def sqrt (a : Nat) : Nat :=
  if F.isNaN a then F.quiet a
  else if F.magnitude a = 0 then a
  else if F.isNegative a then F.invalid
  else if F.isInfinite a then a
  else
    let odd := (F.scale a % 2).toNat
    let more := 2 * (F.fraction + 3)
    let wide := F.mantissa a * Nat.pow 2 (odd + more)
    let r := root wide
    F.round r ((F.scale a - odd) / 2 - (F.fraction + 3 : Nat)) (decide (r * r ≠ wide))

/-- The place of a float that is a number in the order of numbers. -/
def rank (a : Nat) : Int := if F.isNegative a then -(F.magnitude a : Int) else F.magnitude a

/-- The lesser of two floats. The negative zero is less than the positive one. -/
def lesser (a b : Nat) : Nat :=
  F.unlessNaN a b <|
    if F.rank a < F.rank b then a
    else if F.rank b < F.rank a then b
    else if F.isNegative a then a else b

/-- The greater of two floats. -/
def greater (a b : Nat) : Nat :=
  F.unlessNaN a b <|
    if F.rank a < F.rank b then b
    else if F.rank b < F.rank a then a
    else if F.isNegative a then b else a

/-- The value of an operation on two floats. -/
def binary (op : FloatBinaryOp) (a b : Nat) : Nat :=
  match op with
  | .add => F.add a b
  | .sub => F.sub a b
  | .mul => F.mul a b
  | .div => F.div a b
  | .min => F.lesser a b
  | .max => F.greater a b
  | .copysign => F.withSign (F.isNegative b) (F.magnitude a)

/-- Whether a comparison holds. One with something that is not a number does not, except for that
of being different. -/
def holds (op : FloatRelOp) (a b : Nat) : Bool :=
  let ordered := !F.isNaN a && !F.isNaN b
  match op with
  | .eq => ordered && F.rank a == F.rank b
  | .ne => !(ordered && F.rank a == F.rank b)
  | .lt => ordered && decide (F.rank a < F.rank b)
  | .gt => ordered && decide (F.rank b < F.rank a)
  | .le => ordered && decide (F.rank a ≤ F.rank b)
  | .ge => ordered && decide (F.rank b ≤ F.rank a)

/-! ## Floats and integers -/

/-- A way to make an integer of a number. -/
inductive Rounding where
  /-- The nearest one, or the even one of two. -/
  | nearest
  /-- The greatest one below. -/
  | down
  /-- The least one above. -/
  | up
  /-- The nearest one towards zero. -/
  | inward
deriving DecidableEq, Repr

/-- The magnitude of the integer that a finite float is rounded to. -/
def rounded (how : Rounding) (a : Nat) : Nat :=
  if 0 ≤ F.scale a then F.mantissa a * Nat.pow 2 (F.scale a).toNat
  else
    let shift := (-F.scale a).toNat
    let floor := F.mantissa a / Nat.pow 2 shift
    let ceiling := if F.mantissa a % Nat.pow 2 shift = 0 then floor else floor + 1
    match how with
    | .nearest => roundShift (F.mantissa a) shift false
    | .down => if F.isNegative a then ceiling else floor
    | .up => if F.isNegative a then floor else ceiling
    | .inward => floor

/-- The float that is an integer and that a float is rounded to. It keeps its sign. -/
def toIntegral (how : Rounding) (a : Nat) : Nat :=
  if F.isNaN a then F.quiet a
  else if F.isInfinite a then a
  else F.withSign (F.isNegative a) (F.round (F.rounded how a) 0 false)

/-- The value of an operation on one float. -/
def unary (op : FloatUnaryOp) (a : Nat) : Nat :=
  match op with
  | .abs => F.magnitude a
  | .neg => F.neg a
  | .ceil => F.toIntegral .up a
  | .floor => F.toIntegral .down a
  | .trunc => F.toIntegral .inward a
  | .nearest => F.toIntegral .nearest a
  | .sqrt => F.sqrt a

/-- The integer that a finite float is truncated to. -/
def truncated (a : Nat) : Int :=
  if F.isNegative a then -(F.rounded .inward a : Int) else F.rounded .inward a

/-- The float nearest to an integer. -/
def ofInt (n : Int) : Nat := F.ofScaled n 0 false

/-- A float of another format as a float of this one. -/
def ofFormat (G : FloatFormat) (a : Nat) : Nat :=
  let sign := G.isNegative a
  if G.isNaN a then
    let payload := G.magnitude (G.quiet a) % Nat.pow 2 G.fraction
    F.withSign sign (F.infinity + payload * Nat.pow 2 F.fraction / Nat.pow 2 G.fraction)
  else if G.isInfinite a then F.withSign sign F.infinity
  else F.withSign sign (F.round (G.mantissa a) (G.scale a) false)

end FloatFormat

end Stampline.Wasm
