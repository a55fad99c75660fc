import Stampline.Wasm.Arithmetic
import Std.Data.TreeMap

/-!
# Tables

A table is a row of references, all of one type. Those that were never set are references to
nothing.
-/

namespace Stampline.Wasm

/-- A table. -/
structure Table where
  /-- Its type. -/
  type : TableType
  /-- The number of its entries. -/
  size : Nat
  /-- The entries that were set. -/
  entries : Std.TreeMap Nat Value := ∅
deriving Inhabited

namespace Table

/-- The table of a type before anything is set. -/
def ofType (type : TableType) : Table := { type, size := type.limits.min }

/-- Whether a range lies within the table. -/
def covers (t : Table) (start length : Nat) : Bool := decide (start + length ≤ t.size)

/-- An entry, if there is one at a place. -/
def get? (t : Table) (place : Nat) : Option Value :=
  if place < t.size then some (t.entries.getD place (.zero t.type.entry)) else none

/-- The entries of a range, unless it reaches beyond the table. -/
def read (t : Table) (start length : Nat) : Option (List Value) :=
  if t.covers start length then
    some ((List.range' start length).map fun i => t.entries.getD i (.zero t.type.entry))
  else none

/-- The table with entries set from a place on. -/
def write (t : Table) (start : Nat) (values : List Value) : Table :=
  { t with entries := (values.zipIdx start).foldl (fun e (v, i) => e.insert i v) t.entries }

/-- The most entries that a table can have. -/
def mostEntries (limits : Limits) : Nat :=
  if limits.wide then 0xffffffffffffffff else 0xffffffff

/-- The table with more entries, all of them `value`, unless that is too many. -/
def grow? (t : Table) (more : Nat) (value : Value) : Option Table :=
  let most := min (mostEntries t.type.limits) (t.type.limits.max.getD (mostEntries t.type.limits))
  if t.size + more ≤ most then
    let larger := { t with size := t.size + more }
    if value.isNull then some larger else some (larger.write t.size (List.replicate more value))
  else none

end Table

end Stampline.Wasm
