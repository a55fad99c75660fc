import Stampline.Wasm.Text.Code
import Stampline.Wasm.Decode

/-!
# Modules in the text format

A module is a list of fields, each of which declares something. It is read more than once: first to
learn the names of all things, then to learn all types of functions, then to make the things. A
field may stand for several: what it declares may be exported or imported on the spot, and memories
and tables may be given by their contents.
-/

namespace Stampline.Wasm.Text

/-! ## Names -/

/-- What a field declares. -/
structure Field where
  /-- Its word. -/
  word : String
  /-- Its name. -/
  name : Option String
  /-- The names under which it is exported on the spot. -/
  exports : List String
  /-- Where it is imported from on the spot. -/
  source : Option (String × String)
  /-- The rest. -/
  items : List Tree

/-- The names that trees begin with, as exports on the spot, and the trees behind them. -/
def takeExports (ts : List Tree) : Option (List String × List Tree) := do
  let (forms, ts) := Tree.takeForms "export" ts
  let names ← forms.mapM fun
    | [t] => t.text?
    | _ => none
  return (names, ts)

/-- Where something is imported from. -/
def source? : List Tree → Option (String × String)
  | [space, name] => do return (← space.text?, ← name.text?)
  | _ => none

/-- The field that declares something that may be exported or imported on the spot. -/
def declaration? (word : String) (items : List Tree) : Option Field := do
  let (name, items) := Tree.takeName items
  let (exports, items) ← takeExports items
  match Tree.takeForms "import" items with
  | ([], _) => return ⟨word, name, exports, none, items⟩
  | ([source], items) => return ⟨word, name, exports, some (← source? source), items⟩
  | _ => none

/-- The field that a tree is. An import is taken for what it imports. Only functions can be
imported. -/
def field? : Tree → Option Field
  | .list [.atom "import", space, name, .list (.atom "func" :: items)] => do
    let (id, items) := Tree.takeName items
    return ⟨"func", id, [], some (← space.text?, ← name.text?), items⟩
  | .list (.atom word :: items) =>
    if ["func", "table", "memory", "global"].contains word then do
      let field ← declaration? word items
      if field.source.isSome ∧ word ≠ "func" then none else field
    else if ["type", "elem", "data"].contains word then
      let (name, items) := Tree.takeName items
      some ⟨word, name, [], none, items⟩
    else if ["export", "start"].contains word then some ⟨word, none, [], none, items⟩
    else none
  | _ => none

/-- Whether a field of a memory or a table gives its contents. -/
def Field.givesContents (f : Field) : Bool :=
  f.items.any fun t => (t.form? "data").isSome || (t.form? "elem").isSome

/-- The names with those of a field. -/
def Names.add (names : Names) (f : Field) : Names :=
  match f.word with
  | "type" => { names with types := names.types ++ [f.name] }
  | "func" => { names with funcs := names.funcs ++ [f.name] }
  | "table" =>
    { names with
      tables := names.tables ++ [f.name]
      elems := names.elems ++ if f.givesContents then [none] else [] }
  | "memory" =>
    { names with
      memories := names.memories ++ [f.name]
      data := names.data ++ if f.givesContents then [none] else [] }
  | "global" => { names with globals := names.globals ++ [f.name] }
  | "elem" => { names with elems := names.elems ++ [f.name] }
  | "data" => { names with data := names.data ++ [f.name] }
  | _ => names

/-- Whether no name is given to two things of one kind. -/
def Names.areDistinct (names : Names) : Bool :=
  [names.types, names.funcs, names.tables, names.memories, names.globals, names.elems,
    names.data].all NameList.areDistinct

/-- Whether all imports come before what is declared here. -/
def importsFirst (fields : List Field) : Bool :=
  let isImportable (f : Field) : Bool := ["func", "table", "memory", "global"].contains f.word
  (fields.dropWhile fun f => f.source.isSome || !isImportable f).all (·.source.isNone)

/-- The function type that a field declares. -/
def Field.type? (f : Field) : Option FuncType :=
  match f.items with
  | [.list (.atom "func" :: items)] =>
    match signature? items with
    | some (signature, []) => some signature.type
    | _ => none
  | _ => none

/-! ## Things -/

/-- The module that is being made. -/
abbrev Builder (α : Type) := StateT Module (StateT Progress Option) α

/-- Adds the exports of a field, which is that of a thing of the given kind and number. -/
def addExports (f : Field) (kind : ExportKind) (index : Nat) : Builder Unit :=
  modify fun m => { m with exports := m.exports ++ f.exports.map (⟨·, kind, index⟩) }

/-- The locals that code begins with, with their names, and the code behind them. -/
def takeLocals (ts : List Tree) : Option (List (Option String × ValueType) × List Tree) := do
  let (forms, ts) := Tree.takeForms "local" ts
  return (← forms.flatMapM declared?, ts)

/-- Adds a function. -/
def addFunc (names : Names) (f : Field) : Builder Unit := do
  let m ← get
  addExports f .func (m.imports.length + m.funcs.length)
  let ((type, signature), items) ← numberedType names f.items
  match f.source with
  | some (space, name) =>
    if !items.isEmpty then failure
    modify fun m => { m with imports := m.imports ++ [⟨space, name, type⟩] }
  | none =>
    let (locals, items) ← takeLocals items
    let named := signature.names ++ locals.map (·.1)
    if !NameList.areDistinct named then failure
    let body ← instrs { names with locals := named } items
    modify fun m => { m with funcs := m.funcs ++ [⟨type, locals.map fun l => (1, l.2), body⟩] }

/-- Whether trees begin with the type of wide addresses, or of others, and the trees behind it. -/
def takeAddress (ts : List Tree) : Bool × List Tree :=
  match Tree.takeWord "i64" ts with
  | (true, ts) => (true, ts)
  | (false, ts) => (false, (Tree.takeWord "i32" ts).2)

/-- The size of a memory or a table that trees begin with, and the trees behind it. -/
def takeLimits (ts : List Tree) : Option (Limits × List Tree) := do
  let (wide, ts) := takeAddress ts
  let bound := if wide then 0x10000000000000000 else 0x100000000
  match ts with
  | .atom min :: ts =>
    let min ← naturalBelow? bound min
    match ts with
    | .atom max :: rest =>
      if Tree.beginsWithIndex ts then return (⟨min, some (← naturalBelow? bound max), wide⟩, rest)
      else return (⟨min, none, wide⟩, ts)
    | ts => return (⟨min, none, wide⟩, ts)
  | _ => none

/-- The address zero. -/
def zeroAddress (wide : Bool) : Constant := if wide then [.const64 0] else [.const32 0]

/-- The bytes of a number of a kind. -/
def numberBytes? (kind atom : String) : Option (List UInt8) :=
  let integer (bits : Nat) : Option (List UInt8) :=
    (integer? bits atom).map fun n => littleEndian (n % (Nat.pow 2 bits : Int)).toNat (bits / 8)
  let float (width : Width) (bytes : Nat) : Option (List UInt8) :=
    (floatBits? (.ofWidth width) atom).map (littleEndian · bytes)
  match kind with
  | "i8" => integer 8
  | "i16" => integer 16
  | "i32" => integer 32
  | "i64" => integer 64
  | "f32" => float .w32 4
  | "f64" => float .w64 8
  | _ => none

/-- The bytes that a tree gives: quoted, or as numbers of a kind. -/
def bytes? : Tree → Option (List UInt8)
  | .quoted bytes => some bytes
  | .list (.atom kind :: numbers) =>
    if ["i8", "i16", "i32", "i64", "f32", "f64"].contains kind then
      numbers.flatMapM fun
        | .atom atom => numberBytes? kind atom
        | _ => none
    else none
  | _ => none

/-- The bytes that trees give one behind the other. -/
def contents? (ts : List Tree) : Option (List UInt8) := ts.flatMapM bytes?

/-- Adds a memory, given by its size or by its contents. -/
def addMemory (f : Field) : Builder Unit := do
  let index := (← get).memories.length
  addExports f .memory index
  let (wide, items) := takeAddress f.items
  match items with
  | [.list (.atom "data" :: texts)] =>
    let bytes ← contents? texts
    let pages := (bytes.length + pageSize - 1) / pageSize
    modify fun m => { m with
      memories := m.memories ++ [⟨pages, some pages, wide⟩]
      data := m.data ++ [⟨.active index (zeroAddress wide), bytes⟩] }
  | _ =>
    match takeLimits f.items with
    | some (limits, []) => modify fun m => { m with memories := m.memories ++ [limits] }
    | _ => failure

/-- Adds a global. -/
def addGlobal (names : Names) (f : Field) : Builder Unit := do
  addExports f .global (← get).globals.length
  match f.items with
  | t :: items =>
    let (isMutable, type) ← match t with
      | .list [.atom "mut", t] => do pure (true, ← valueType? t)
      | t => do pure (false, ← valueType? t)
    let value ← instrs names items
    modify fun m => { m with globals := m.globals ++ [⟨type, isMutable, value⟩] }
  | [] => failure

/-! ## Segments of references -/

/-- The references that are written as the numbers of functions. -/
def funcItems (names : Names) (ts : List Tree) : StateT Progress Option (List Constant) :=
  ts.mapM fun
    | .atom atom => do return [.refFunc (← names.funcs.find? atom)]
    | _ => failure

/-- The references that are written as code, one list each. -/
def codeItems (names : Names) (ts : List Tree) : StateT Progress Option (List Constant) :=
  ts.mapM fun t =>
    match t.form? "item" with
    | some items => instrs names items
    | none => instrs names [t]

/-- The type and the references of a segment. -/
def elemItems (names : Names) (ts : List Tree) :
    StateT Progress Option (ValueType × List Constant) := do
  match ts with
  | .atom "func" :: ts => return (.funcRef, ← funcItems names ts)
  | t :: rest =>
    match refType? t with
    | some type => return (type, ← codeItems names rest)
    | none => return (.funcRef, ← funcItems names ts)
  | [] => return (.funcRef, [])

/-- The code of the place where a segment goes. -/
def offset (names : Names) (t : Tree) : StateT Progress Option Constant :=
  match t.form? "offset" with
  | some items => instrs names items
  | none => instrs names [t]

/-- Reads where a segment goes: what it goes to, which has the given word and is the first of its
kind unless it is told, and the place there. -/
def placement (names : Names) (word : String) (targets : NameList) : Reader SegmentMode :=
  fun ts => do
    let (target, ts) ← match ts with
      | .list [.atom name, .atom atom] :: rest =>
        if name = word then do pure (← targets.find? atom, rest) else pure (0, ts)
      | .atom _ :: _ => reference targets ts
      | _ => pure (0, ts)
    match ts with
    | t :: ts => return (.active target (← offset names t), ts)
    | [] => failure

/-- Adds a segment of references. -/
def addElem (names : Names) (f : Field) : Builder Unit := do
  let (mode, items) ← match f.items with
    | .atom "declare" :: ts => pure (SegmentMode.declared, ts)
    | .atom atom :: ts =>
      if (index? atom).isSome then placement names "table" names.tables (.atom atom :: ts)
      else pure (.passive, .atom atom :: ts)
    | .list items :: ts =>
      if (refType? (.list items)).isSome then pure (.passive, .list items :: ts)
      else placement names "table" names.tables (.list items :: ts)
    | ts => pure (.passive, ts)
  let (type, items) ← elemItems names items
  modify fun m => { m with elems := m.elems ++ [⟨type, mode, items⟩] }

/-- Adds a segment of bytes. -/
def addData (names : Names) (f : Field) : Builder Unit := do
  let (mode, texts) ← match f.items with
    | [] | .quoted _ :: _ => pure (SegmentMode.passive, f.items)
    | ts => placement names "memory" names.memories ts
  let bytes ← contents? texts
  modify fun m => { m with data := m.data ++ [⟨mode, bytes⟩] }

/-- Adds a table, given by its size or by its contents. -/
def addTable (names : Names) (f : Field) : Builder Unit := do
  let index := (← get).tables.length
  addExports f .table index
  let (wide, items) := takeAddress f.items
  match items with
  | [t, .list (.atom "elem" :: items)] =>
    let type ← refType? t
    let items ← match items with
      | .list _ :: _ => codeItems names items
      | _ => funcItems names items
    modify fun m => { m with
      tables := m.tables ++ [⟨type, items.length, some items.length, wide⟩]
      elems := m.elems ++ [⟨type, .active index (zeroAddress wide), items⟩] }
  | _ =>
    match takeLimits f.items with
    | some (limits, [t]) =>
      let type ← refType? t
      modify fun m => { m with tables := m.tables ++ [⟨type, limits⟩] }
    | _ => failure

/-! ## Modules -/

/-- Adds an export. -/
def addExport (names : Names) (f : Field) : Builder Unit :=
  match f.items with
  | [name, .list [.atom kind, .atom atom]] => do
    let name ← name.text?
    let (kind, names) ← match kind with
      | "func" => pure (ExportKind.func, names.funcs)
      | "table" => pure (.table, names.tables)
      | "memory" => pure (.memory, names.memories)
      | "global" => pure (.global, names.globals)
      | _ => failure
    let index ← names.find? atom
    modify fun m => { m with exports := m.exports ++ [⟨name, kind, index⟩] }
  | _ => failure

/-- Adds the function for the start, of which there is at most one. -/
def addStart (names : Names) (f : Field) : Builder Unit := do
  match f.items, (← get).start with
  | [.atom atom], none =>
    let func ← names.funcs.find? atom
    modify fun m => { m with start := some func }
  | _, _ => failure

/-- Adds what a field declares. -/
def addField (names : Names) (f : Field) : Builder Unit :=
  match f.word with
  | "func" => addFunc names f
  | "table" => addTable names f
  | "memory" => addMemory f
  | "global" => addGlobal names f
  | "elem" => addElem names f
  | "data" => addData names f
  | "export" => addExport names f
  | "start" => addStart names f
  | _ => pure ()

/-- The module that fields declare, given the types that are known when the first of them is read.
Types that are not known yet are added. -/
def moduleWith? (names : Names) (fields : List Field) (types : List FuncType) : Option Module := do
  let empty : Module := { types := [], imports := [], funcs := [], memories := [], exports := [],
                          data := [] }
  let ((_, m), p) ← ((fields.forM (addField names)).run empty).run { types }
  return { m with types := p.types, dataCount := some m.data.length }

/-- The module that fields declare. A type may be referred to in front of where it is added, so the
fields are read again when all types are known. -/
def moduleOf? (ts : List Tree) : Option Module := do
  let fields ← ts.mapM field?
  let names := fields.foldl Names.add {}
  if !(names.areDistinct && importsFirst fields) then none
  let types ← (fields.filter (·.word = "type")).mapM Field.type?
  moduleWith? names fields (← moduleWith? names fields types).types

/-- The module that trees are: a list with its fields or its bytes, or the fields by themselves. -/
def moduleOfTrees? : List Tree → Option Module
  | [] => none
  | [.list (.atom "module" :: ts)] =>
    match Tree.takeName ts with
    | (_, .atom "binary" :: texts) => (Tree.quotedBytes texts).bind decode
    | (_, fields) => moduleOf? fields
  | fields => moduleOf? fields

/-- The module that a text is. -/
def module? (text : String) : Option Module := do
  moduleOfTrees? (← trees? (← tokens? text))

end Stampline.Wasm.Text

namespace Stampline.Wasm

/-- The module that bytes are, in the binary format or as text. -/
def read (bytes : List UInt8) : Option Module :=
  if bytes.take 4 = preamble.take 4 then decode bytes
  else (String.fromUTF8? ⟨bytes.toArray⟩).bind Text.module?

end Stampline.Wasm
