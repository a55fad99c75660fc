import Stampline.Wasm.State

/-!
# Steps

What the instructions do that have no body and call nothing. Code that is not well typed gets stuck.
-/

namespace Stampline.Wasm

/-- The outcome that pushes a value, or faults. -/
def Config.yield (c : Config) (result : Except Fault Value) (stack : List Value) : Outcome :=
  match result with
  | .ok v => .next { c with stack := v :: stack }
  | .error f => .fault f c.env

/-- The outcome of a change of the state that is not made if it reaches out of bounds. -/
def Config.change (c : Config) (stack : List Value) (bound : Fault) (inBounds : Bool)
    (change : State → State) : Outcome :=
  if inBounds then .next { c with stack, state := change c.state } else .fault bound c.env

/-! ## Tables -/

/-- Runs an instruction that acts on tables, given the operands. -/
def stepTable (i : Instr UInt32) (c : Config) : Outcome :=
  let s := c.state
  match i, c.stack with
  | .tableGet table, p :: rest =>
    match s.tables[table]?, p.unsigned? with
    | some t, some p => c.yield ((t.get? p).elim (.error .tableOutOfBounds) .ok) rest
    | _, _ => .stuck
  | .tableSet table, v :: p :: rest =>
    match s.tables[table]?, p.unsigned? with
    | some t, some p => c.change rest .tableOutOfBounds (t.covers p 1) (·.writeTable table p [v])
    | _, _ => .stuck
  | .tableSize table, rest =>
    match s.tables[table]? with
    | some t => .next { c with stack := .ofSize t.size t.type.limits :: rest }
    | none => .stuck
  | .tableGrow table, n :: v :: rest =>
    match s.tables[table]?, n.unsigned? with
    | some t, some n =>
      match t.grow? n v with
      | some larger =>
        .next { c with
          stack := .ofSize t.size t.type.limits :: rest
          state := { s with tables := s.tables.setIfInBounds table larger } }
      | none => .next { c with stack := .noSize t.type.limits :: rest }
    | _, _ => .stuck
  | .tableFill table, n :: v :: p :: rest =>
    match s.tables[table]?, p.unsigned?, n.unsigned? with
    | some t, some p, some n =>
      c.change rest .tableOutOfBounds (t.covers p n) (·.writeTable table p (List.replicate n v))
    | _, _, _ => .stuck
  | .tableCopy target source, n :: q :: p :: rest =>
    match s.tables[target]?, s.tables[source]?, p.unsigned?, q.unsigned?, n.unsigned? with
    | some t, some u, some p, some q, some n =>
      match u.read q n with
      | some values =>
        c.change rest .tableOutOfBounds (t.covers p n) (·.writeTable target p values)
      | none => .fault .tableOutOfBounds c.env
    | _, _, _, _, _ => .stuck
  | .tableInit segment table, n :: q :: p :: rest =>
    match s.tables[table]?, s.elems[segment]?, p.unsigned?, q.unsigned?, n.unsigned? with
    | some t, some values, some p, some q, some n =>
      c.change rest .tableOutOfBounds (t.covers p n && decide (q + n ≤ values.length))
        (·.writeTable table p ((values.drop q).take n))
    | _, _, _, _, _ => .stuck
  | .elemDrop segment, rest =>
    .next { c with stack := rest, state := { s with elems := s.elems.setIfInBounds segment [] } }
  | _, _ => .stuck

/-! ## Memories -/

/-- Runs an instruction that acts on memories, given the operands. -/
def stepMemory (i : Instr UInt32) (c : Config) : Outcome :=
  let s := c.state
  match i, c.stack with
  | .load access place, p :: rest =>
    match s.memories[place.memory]?, p.unsigned? with
    | some m, some p =>
      match m.read (p + place.offset) access.bytes with
      | some bytes => .next { c with stack := access.valueOf bytes :: rest }
      | none => .fault .memoryOutOfBounds c.env
    | _, _ => .stuck
  | .store access place, v :: p :: rest =>
    match s.memories[place.memory]?, p.unsigned?, access.bytesOf? v with
    | some m, some p, some bytes =>
      c.change rest .memoryOutOfBounds (m.covers (p + place.offset) access.bytes)
        (·.writeMemory place.memory (p + place.offset) bytes)
    | _, _, _ => .stuck
  | .memorySize memory, rest =>
    match s.memories[memory]? with
    | some m => .next { c with stack := .ofSize m.pages m.limits :: rest }
    | none => .stuck
  | .memoryGrow memory, n :: rest =>
    match s.memories[memory]?, n.unsigned? with
    | some m, some n =>
      match m.grow? n with
      | some larger =>
        .next { c with
          stack := .ofSize m.pages m.limits :: rest
          state := { s with memories := s.memories.setIfInBounds memory larger } }
      | none => .next { c with stack := .noSize m.limits :: rest }
    | _, _ => .stuck
  | .memoryFill memory, n :: v :: p :: rest =>
    match s.memories[memory]?, p.unsigned?, v.unsigned?, n.unsigned? with
    | some m, some p, some v, some n =>
      c.change rest .memoryOutOfBounds (m.covers p n)
        (·.writeMemory memory p (List.replicate n (UInt8.ofNat v)))
    | _, _, _, _ => .stuck
  | .memoryCopy target source, n :: q :: p :: rest =>
    match s.memories[target]?, s.memories[source]?, p.unsigned?, q.unsigned?, n.unsigned? with
    | some t, some u, some p, some q, some n =>
      match u.read q n with
      | some bytes =>
        c.change rest .memoryOutOfBounds (t.covers p n) (·.writeMemory target p bytes)
      | none => .fault .memoryOutOfBounds c.env
    | _, _, _, _, _ => .stuck
  | .memoryInit segment memory, n :: q :: p :: rest =>
    match s.memories[memory]?, s.data[segment]?, p.unsigned?, q.unsigned?, n.unsigned? with
    | some m, some bytes, some p, some q, some n =>
      c.change rest .memoryOutOfBounds (m.covers p n && decide (q + n ≤ bytes.length))
        (·.writeMemory memory p ((bytes.drop q).take n))
    | _, _, _, _, _ => .stuck
  | .dataDrop segment, rest =>
    .next { c with stack := rest, state := { s with data := s.data.setIfInBounds segment [] } }
  | _, _ => stepTable i c

/-! ## The rest -/

/-- Runs an instruction that has no body and calls nothing. -/
def step (i : Instr UInt32) (c : Config) : Outcome :=
  match i, c.stack with
  | .unreachable, _ => .fault .unreachable c.env
  | .nop, _ => .next c
  | .br depth, _ => .branch depth c
  | .brIf depth, .i32 test :: stack =>
    if test = 0 then .next { c with stack } else .branch depth { c with stack }
  | .brTable depths last, .i32 place :: stack =>
    .branch (depths.getD place.toNat last) { c with stack }
  | .ret, _ => .leave c
  | .drop, _ :: stack => .next { c with stack }
  | .select _, .i32 test :: b :: a :: stack =>
    .next { c with stack := (if test = 0 then b else a) :: stack }
  | .localGet slot, stack =>
    match c.locals[slot]? with
    | some v => .next { c with stack := v :: stack }
    | none => .stuck
  | .localSet slot, v :: stack =>
    if slot < c.locals.size then .next { c with stack, locals := c.locals.setIfInBounds slot v }
    else .stuck
  | .localTee slot, v :: stack =>
    if slot < c.locals.size then
      .next { c with stack := v :: stack, locals := c.locals.setIfInBounds slot v }
    else .stuck
  | .globalGet index, stack =>
    match c.state.globals[index]? with
    | some v => .next { c with stack := v :: stack }
    | none => .stuck
  | .globalSet index, v :: stack =>
    let globals := c.state.globals.setIfInBounds index v
    .next { c with stack, state := { c.state with globals } }
  | .const32 value, stack => .next { c with stack := .i32 value :: stack }
  | .const64 value, stack => .next { c with stack := .i64 value :: stack }
  | .constFloat32 bits, stack => .next { c with stack := .f32 bits :: stack }
  | .constFloat64 bits, stack => .next { c with stack := .f64 bits :: stack }
  | .numeric op, stack =>
    match op.apply stack with
    | some (result, stack) => c.yield result stack
    | none => .stuck
  | .refNull type, stack => .next { c with stack := .zero type :: stack }
  | .refIsNull, v :: stack => .next { c with stack := .i32 (ofBool v.isNull) :: stack }
  | .refFunc func, stack => .next { c with stack := .func (some func) :: stack }
  | i, _ => stepMemory i c

end Stampline.Wasm
