/-!
# Integers as bytes

Integers are written as little-endian groups of seven bits, one to a byte, with the high bit set in
every byte but the last. Unsigned numbers stop when nothing is left; signed ones stop when what is
left is the sign that bit 6 of the last byte shows.

Reading accepts longer forms than the shortest, as long as they take no more bytes than the widest
number needs and the bits beyond the width agree with it.

Where the number of bytes is fixed, a number is written with its lowest byte first.
-/

namespace Stampline.Wasm

/-- Writes a number in the fewest bytes. -/
def unsignedLeb (n : Nat) : List UInt8 :=
  if n < 128 then [UInt8.ofNat n] else UInt8.ofNat (n % 128 + 128) :: unsignedLeb (n / 128)
termination_by n

/-- Writes an integer in the fewest bytes. -/
def signedLeb (n : Int) : List UInt8 :=
  if -64 ≤ n ∧ n < 64 then [UInt8.ofNat (n % 128).toNat]
  else UInt8.ofNat ((n % 128).toNat + 128) :: signedLeb (n / 128)
termination_by n.natAbs

/-- Reads a number of at most `bits` bits. -/
def readUnsigned (bits : Nat) : List UInt8 → Option (Nat × List UInt8)
  | [] => none
  | b :: rest =>
    if b.toNat < 128 then
      if b.toNat < Nat.pow 2 bits then some (b.toNat, rest) else none
    else if bits ≤ 7 then none
    else
      match readUnsigned (bits - 7) rest with
      | none => none
      | some (high, rest) => some (128 * high + (b.toNat - 128), rest)

/-- Reads an integer of at most `bits` bits, the sign among them. -/
def readSigned (bits : Nat) : List UInt8 → Option (Int × List UInt8)
  | [] => none
  | b :: rest =>
    if b.toNat < 128 then
      let value : Int := if b.toNat < 64 then b.toNat else (b.toNat : Int) - 128
      let half := Nat.pow 2 (bits - 1)
      if -(half : Int) ≤ value ∧ value < half then some (value, rest) else none
    else if bits ≤ 7 then none
    else
      match readSigned (bits - 7) rest with
      | none => none
      | some (high, rest) => some (128 * high + (b.toNat - 128 : Nat), rest)

/-- The lowest bytes of a number, as many as asked for, the lowest first. -/
def littleEndian (n : Nat) : Nat → List UInt8
  | 0 => []
  | count + 1 => UInt8.ofNat (n % 256) :: littleEndian (n / 256) count

/-- The number that bytes are, the lowest first. -/
def ofLittleEndian : List UInt8 → Nat
  | [] => 0
  | b :: bs => b.toNat + 256 * ofLittleEndian bs

end Stampline.Wasm
