import Stampline.Wasm.Arithmetic
import Stampline.Wasm.Leb
import Std.Data.TreeMap

/-!
# Memories

A memory is a row of bytes. What it holds before anything runs is told by the segments that were
placed in it, and what was written since by a map; all other bytes are zero. Numbers lie in memory
with their lowest byte first.
-/

namespace Stampline.Wasm

/-- A memory. -/
structure Memory where
  /-- Its limits. -/
  limits : Limits
  /-- Its size in bytes. -/
  size : Nat
  /-- The bytes that are not zero from the start: where they lie, and what they are. Of two
  segments that overlap the first in the list wins. -/
  segments : List (Nat × Array UInt8)
  /-- The bytes that were written since. -/
  written : Std.TreeMap Nat UInt8 := ∅
deriving Inhabited

namespace Memory

/-- The byte at an address among segments. -/
def byteOf (address : Nat) : List (Nat × Array UInt8) → UInt8
  | [] => 0
  | (offset, bytes) :: rest =>
    if offset ≤ address ∧ address < offset + bytes.size then bytes.getD (address - offset) 0
    else byteOf address rest

/-- The byte at an address. -/
def byte (m : Memory) (address : Nat) : UInt8 :=
  match m.written[address]? with
  | some b => b
  | none => byteOf address m.segments

/-- Whether a range lies within the memory. -/
def covers (m : Memory) (start length : Nat) : Bool := decide (start + length ≤ m.size)

/-- The bytes of a range, unless it reaches beyond the memory. -/
def read (m : Memory) (start length : Nat) : Option (List UInt8) :=
  if m.covers start length then some ((List.range' start length).map m.byte) else none

/-- The text of a range. -/
def readText (m : Memory) (start length : Nat) : Except Fault String :=
  match m.read start length with
  | none => .error .textOutOfBounds
  | some bytes =>
    match String.fromUTF8? ⟨bytes.toArray⟩ with
    | some text => .ok text
    | none => .error .malformedText

/-- The memory with bytes written from an address on. -/
def write (m : Memory) (start : Nat) (bytes : List UInt8) : Memory :=
  { m with written := (bytes.zipIdx start).foldl (fun w (b, a) => w.insert a b) m.written }

/-- The number of pages. -/
def pages (m : Memory) : Nat := m.size / pageSize

/-- The memory with more pages, unless that is too many. -/
def grow? (m : Memory) (more : Nat) : Option Memory :=
  if m.pages + more ≤ m.limits.max.getD m.limits.maxPages then
    some { m with size := m.size + more * pageSize }
  else none

/-- The memory of the given size with segments in place, unless one reaches beyond it. Each segment
is given by where it begins. -/
def ofSegments? (limits : Limits) (segments : List (Nat × List UInt8)) : Option Memory :=
  let size := limits.min * pageSize
  if segments.all fun s => decide (s.1 + s.2.length ≤ size) then
    some { limits, size, segments := (segments.map fun s => (s.1, s.2.toArray)).reverse }
  else none

end Memory

/-- The value that the bytes at a place in memory are. -/
def Access.valueOf (a : Access) (bytes : List UInt8) : Value :=
  let n := ofLittleEndian bytes
  match a.type with
  | .i32 => .ofInt (if a.signed then signExtended n (8 * a.bytes) else n) .w32
  | .f32 => .ofBits n .w32
  | .f64 => .ofBits n .w64
  | _ => .ofInt (if a.signed then signExtended n (8 * a.bytes) else n) .w64

/-- The bytes of a value in memory, if it is of the right type. -/
def Access.bytesOf? (a : Access) (v : Value) : Option (List UInt8) :=
  match a.type, v with
  | .i32, .i32 value => some (littleEndian value.toNat a.bytes)
  | .i64, .i64 value => some (littleEndian value.toUInt64.toNat a.bytes)
  | .f32, .f32 bits => some (littleEndian bits.toNat a.bytes)
  | .f64, .f64 bits => some (littleEndian bits.toNat a.bytes)
  | _, _ => none

end Stampline.Wasm
