import Stampline.Wasm.Validate

/-!
# Well-typed code and well-typed modules

`Leads` says that code is well typed and what operands it goes from and to. A module is valid exactly
if it is well typed and stays within the limits on counts that do not concern types.
-/

namespace Stampline.Wasm

variable {ι κ : Type}

/-! ## Operands -/

namespace Operands

variable {s : Operands}

theorem popAll_append_known (ts : List ValueType) (known : List (Option ValueType))
    (isOpen : Bool) : popAll ts ⟨ts.map some ++ known, isOpen⟩ = some ⟨known, isOpen⟩ := by
  induction ts with
  | nil => rfl
  | cons t ts ih => simpa [popAll, pop] using ih

/-- Operands that were pushed are there to be popped. -/
theorem popAll_pushAll (ts : List ValueType) : popAll ts.reverse (s.pushAll ts) = some s := by
  rw [pushAll, ← List.map_reverse]
  exact popAll_append_known _ _ _

theorem pass_pushAll (params results : List ValueType) :
    pass params results (s.pushAll params) = some (s.pushAll results) := by
  rw [pass, popAll_pushAll]
  rfl

theorem pushAll_cons (t : ValueType) (ts : List ValueType) :
    s.pushAll (t :: ts) = (s.push t).pushAll ts := by
  simp [pushAll, push]

theorem pop_push (t : ValueType) : (s.push t).pop t = some s := by simp [pop, push]

end Operands

/-! ## Code -/

section Code

variable {ctx : Context} {labels : List (List ValueType)} {is js : List (Instr ι)}
  {s s' s'' : Operands}

/-- The instructions are well typed, and lead from the operands `s` to the operands `s'`. -/
def Leads (ctx : Context) (labels : List (List ValueType)) (is : List (Instr ι))
    (s s' : Operands) : Prop :=
  checkInstrs ctx labels is s = some s'

/-! What is checked of the instructions that programs are lowered to. -/

theorem checkInstr_localGet (slot : Nat) : checkInstr ctx labels (.localGet slot : Instr ι) s =
    (slotType? ctx.locals slot).bind fun t => some (s.push t) := rfl

theorem checkInstr_localSet (slot : Nat) : checkInstr ctx labels (.localSet slot : Instr ι) s =
    (slotType? ctx.locals slot).bind fun t => s.pop t := rfl

theorem checkInstr_call (func : Nat) : checkInstr ctx labels (.call func : Instr ι) s =
    ctx.funcs[func]?.bind fun t => s.pass t.params t.results := rfl

theorem checkInstr_numeric (op : Numeric) : checkInstr ctx labels (.numeric op : Instr ι) s =
    s.pass op.params [op.result] := rfl

theorem checkInstr_when (body : List (Instr ι)) :
    checkInstr ctx labels (.when .none body) (s.push .i32) =
      if endsWith [] (checkInstrs ctx ([] :: labels) body {}) then some s else none := by
  have hpop : checkInstr ctx labels (.when .none body) (s.push .i32) =
      ((s.push .i32).pop .i32).bind fun s =>
        if ([] : List ValueType) = [] ∧ endsWith [] (checkInstrs ctx ([] :: labels) body {})
        then some s else none := rfl
  rw [hpop, Operands.pop_push, Option.bind_some]
  simp only [true_and]

theorem checkInstr_choose (body orelse : List (Instr ι)) :
    checkInstr ctx labels (.choose .none body orelse) (s.push .i32) =
      if endsWith [] (checkInstrs ctx ([] :: labels) body {}) &&
        endsWith [] (checkInstrs ctx ([] :: labels) orelse {}) then some s else none := by
  have hpop : checkInstr ctx labels (.choose .none body orelse) (s.push .i32) =
      ((s.push .i32).pop .i32).bind fun s =>
        if endsWith [] (checkInstrs ctx ([] :: labels) body {}) &&
          endsWith [] (checkInstrs ctx ([] :: labels) orelse {}) then some s else none := rfl
  rw [hpop, Operands.pop_push, Option.bind_some]

theorem checkInstr_block (body : List (Instr ι)) : checkInstr ctx labels (.block .none body) s =
    if endsWith [] (checkInstrs ctx ([] :: labels) body {}) then some s else none := rfl

theorem checkInstr_loop (body : List (Instr ι)) : checkInstr ctx labels (.loop .none body) s =
    if endsWith [] (checkInstrs ctx ([] :: labels) body {}) then some s else none := rfl

theorem checkInstrs_cons (i : Instr ι) (is : List (Instr ι)) : checkInstrs ctx labels (i :: is) s =
    (checkInstr ctx labels i s).bind fun s => checkInstrs ctx labels is s := rfl

namespace Leads

theorem nil : Leads ctx labels ([] : List (Instr ι)) s s := rfl

theorem cons {i : Instr ι} (hi : checkInstr ctx labels i s = some s')
    (his : Leads ctx labels is s' s'') : Leads ctx labels (i :: is) s s'' := by
  rw [Leads, checkInstrs_cons, hi]
  exact his

theorem one {i : Instr ι} (hi : checkInstr ctx labels i s = some s') :
    Leads ctx labels [i] s s' := cons hi nil

theorem append (his : Leads ctx labels is s s') (hjs : Leads ctx labels js s' s'') :
    Leads ctx labels (is ++ js) s s'' := by
  induction is generalizing s with
  | nil =>
    obtain rfl : s = s' := Option.some.inj his
    exact hjs
  | cons i is ih =>
    rw [Leads, checkInstrs_cons] at his
    obtain ⟨t, hi, his⟩ := Option.bind_eq_some_iff.1 his
    exact cons hi (ih his)

theorem localGet {slot : Nat} {t : ValueType} (ht : slotType? ctx.locals slot = some t) :
    Leads ctx labels [(.localGet slot : Instr ι)] s (s.push t) :=
  one (by rw [checkInstr_localGet, ht]; rfl)

theorem localSet {slot : Nat} {t : ValueType} (ht : slotType? ctx.locals slot = some t) :
    Leads ctx labels [(.localSet slot : Instr ι)] (s.push t) s :=
  one (by rw [checkInstr_localSet, ht, Option.bind_some, Operands.pop_push])

theorem call {func : Nat} {t : FuncType} (ht : ctx.funcs[func]? = some t) :
    Leads ctx labels [(.call func : Instr ι)] (s.pushAll t.params) (s.pushAll t.results) :=
  one (by rw [checkInstr_call, ht, Option.bind_some, Operands.pass_pushAll])

theorem numeric (op : Numeric) :
    Leads ctx labels [(.numeric op : Instr ι)] (s.pushAll op.params) (s.push op.result) :=
  one (by rw [checkInstr_numeric, Operands.pass_pushAll]; rfl)

/-- Code that leaves no operands ends as the body of a block. -/
theorem endsWith_nil {isOpen : Bool} (h : Leads ctx labels is s ⟨[], isOpen⟩) :
    endsWith [] (checkInstrs ctx labels is s) = true := by
  rw [Leads] at h
  rw [h]
  rfl

theorem when {body : List (Instr ι)} {isOpen : Bool}
    (h : Leads ctx ([] :: labels) body {} ⟨[], isOpen⟩) :
    Leads ctx labels [.when .none body] (s.push .i32) s := by
  refine one ?_
  rw [checkInstr_when, if_pos h.endsWith_nil]

theorem choose {body orelse : List (Instr ι)} {isOpen isOpen' : Bool}
    (hbody : Leads ctx ([] :: labels) body {} ⟨[], isOpen⟩)
    (horelse : Leads ctx ([] :: labels) orelse {} ⟨[], isOpen'⟩) :
    Leads ctx labels [.choose .none body orelse] (s.push .i32) s := by
  refine one ?_
  rw [checkInstr_choose, if_pos (by rw [hbody.endsWith_nil, horelse.endsWith_nil]; rfl)]

/-- A loop within the block that it is left to. -/
theorem loop {body : List (Instr ι)} {isOpen : Bool}
    (h : Leads ctx ([] :: [] :: labels) body {} ⟨[], isOpen⟩) :
    Leads ctx labels [.block .none [.loop .none body]] s s := by
  have hloop : Leads ctx ([] :: labels) [.loop .none body] {} {} := by
    refine one ?_
    rw [checkInstr_loop, if_pos h.endsWith_nil]
  refine one ?_
  rw [checkInstr_block, if_pos hloop.endsWith_nil]

end Leads

/-! Types do not depend on the constants. -/

mutual

theorem checkInstr_map (f : ι → κ) : ∀ (labels : List (List ValueType)) (i : Instr ι)
    (s : Operands), checkInstr ctx labels (i.map f) s = checkInstr ctx labels i s
  | labels, .block type body, s | labels, .loop type body, s | labels, .when type body, s => by
    simp only [Instr.map, checkInstr, checkInstrs_map f _ body]
  | labels, .choose type body orelse, s => by
    simp only [Instr.map, checkInstr, checkInstrs_map f _ body, checkInstrs_map f _ orelse]
  | labels, .select type, s => by cases type <;> rfl
  | labels, .unreachable, s | labels, .nop, s | labels, .br _, s | labels, .brIf _, s
  | labels, .brTable _ _, s | labels, .ret, s | labels, .call _, s | labels, .callIndirect _ _, s
  | labels, .tailCall _, s | labels, .tailCallIndirect _ _, s | labels, .drop, s
  | labels, .localGet _, s | labels, .localSet _, s
  | labels, .localTee _, s | labels, .globalGet _, s | labels, .globalSet _, s
  | labels, .tableGet _, s | labels, .tableSet _, s | labels, .tableSize _, s
  | labels, .tableGrow _, s | labels, .tableFill _, s | labels, .tableCopy _ _, s
  | labels, .tableInit _ _, s | labels, .elemDrop _, s | labels, .load _ _, s
  | labels, .store _ _, s | labels, .memorySize _, s | labels, .memoryGrow _, s
  | labels, .memoryFill _, s | labels, .memoryCopy _ _, s | labels, .memoryInit _ _, s
  | labels, .dataDrop _, s | labels, .const32 _, s | labels, .const64 _, s
  | labels, .constFloat32 _, s | labels, .constFloat64 _, s | labels, .numeric _, s
  | labels, .refNull _, s | labels, .refIsNull, s | labels, .refFunc _, s => rfl

theorem checkInstrs_map (f : ι → κ) : ∀ (labels : List (List ValueType)) (is : List (Instr ι))
    (s : Operands), checkInstrs ctx labels (mapInstrs f is) s = checkInstrs ctx labels is s
  | labels, [], s => rfl
  | labels, i :: is, s => by
    simp only [mapInstrs, checkInstrs, checkInstr_map f labels i, checkInstrs_map f labels is]

end

end Code

/-! ## Functions and modules -/

/-- Slots in runs of one type have that type. -/
theorem slotType?_eq_some {t : ValueType} : ∀ {runs : List (Nat × ValueType)} {slot : Nat},
    (∀ run ∈ runs, run.2 = t) → slot < slotCount runs → slotType? runs slot = some t
  | [], slot, _, h => by simp [slotCount] at h
  | (n, u) :: runs, slot, ht, h => by
    obtain rfl : u = t := ht (n, u) (by simp)
    unfold slotType?
    split
    · rfl
    · rw [slotCount] at h
      exact slotType?_eq_some (fun run hrun => ht run (by simp [hrun])) (by omega)

theorem slotCount_append : ∀ a b : List (Nat × ValueType),
    slotCount (a ++ b) = slotCount a + slotCount b
  | [], b => by simp [slotCount]
  | (n, t) :: a, b => by simp only [List.cons_append, slotCount, slotCount_append a b]; omega

theorem slotCount_ones (ts : List ValueType) : slotCount (ts.map fun p => (1, p)) = ts.length := by
  induction ts with
  | nil => rfl
  | cons t ts ih => simp only [List.map_cons, slotCount, ih, List.length_cons]; omega

/-- The locals of a function of a type, its parameters among them, in runs. -/
def Func.runs (t : FuncType) (f : Func ι) : List (Nat × ValueType) :=
  t.params.map (fun p => (1, p)) ++ f.locals

/-- A function is well typed, however many locals it has. -/
def Func.WellTyped (ctx : Context) (f : Func ι) : Prop :=
  ∃ t, ctx.types[f.type]? = some t ∧
    endsWith t.results (checkInstrs { ctx with locals := f.runs t, results := t.results }
      [t.results] f.body {}) = true

theorem Func.check_iff {ctx : Context} {f : Func ι} : f.check ctx = true ↔ f.WellTyped ctx ∧
    ∀ t, ctx.types[f.type]? = some t → slotCount (f.runs t) ≤ maxLocals := by
  unfold Func.check Func.WellTyped
  cases ht : ctx.types[f.type]? with
  | none => simp
  | some t =>
    simp only [Func.runs, Bool.and_eq_true, decide_eq_true_eq, Option.some.injEq, exists_eq_left',
      forall_eq']
    exact and_comm

/-- What code of a module may refer to, given the types of the functions. -/
def Module.context (m : Module) (funcs : List FuncType) : Context :=
  { types := m.types, funcs, tables := m.tables, memories := m.memories, globals := m.globals
    elems := m.elems.map (·.type), dataCount := m.dataCount, referable := m.referable }

/-- A module is well typed, given the types of its functions: everything that it refers to is there
and has the right type. -/
structure Module.WellTyped (m : Module) (funcs : List FuncType) : Prop where
  functions : m.funcTypes? = some funcs
  tables : ∀ t ∈ m.tables, t.check = true
  memories : ∀ l ∈ m.memories, l.check l.maxPages = true
  globals : ∀ g ∈ m.globals, g.value.check (m.context funcs).beforehand g.type = true
  exports : ∀ e ∈ m.exports, e.check (m.context funcs) = true
  exports_nodup : (m.exports.map (·.name)).Nodup
  start : ∀ func, m.start = some func → funcs[func]? = some ⟨[], []⟩
  elems : ∀ s ∈ m.elems, s.check (m.context funcs).beforehand = true
  dataCount : ∀ n, m.dataCount = some n → n = m.data.length
  bodies : ∀ f ∈ m.funcs, f.WellTyped (m.context funcs)
  data : ∀ s ∈ m.data, s.check (m.context funcs).beforehand = true

/-- A module has no more of anything than an engine admits. -/
structure Module.WithinLimits (m : Module) : Prop where
  types : ∀ t ∈ m.types, t.params.length ≤ maxParams ∧ t.results.length ≤ maxParams
  tables : m.tables.length ≤ maxTables
  memories : m.memories.length ≤ maxTables
  locals : ∀ f ∈ m.funcs, ∀ t, m.types[f.type]? = some t → slotCount (f.runs t) ≤ maxLocals

/-- A module is valid exactly if it is well typed and within the limits. -/
theorem Module.check_iff {m : Module} :
    m.check = true ↔ ∃ funcs, m.WellTyped funcs ∧ m.WithinLimits := by
  unfold Module.check
  cases hfuncs : m.funcTypes? with
  | none => exact ⟨nofun, fun ⟨funcs, h, _⟩ => by simpa [hfuncs] using h.functions⟩
  | some funcs =>
    have hlocals : m.funcs.all (Func.check (m.context funcs)) = true ↔
        (∀ f ∈ m.funcs, f.WellTyped (m.context funcs)) ∧
        ∀ f ∈ m.funcs, ∀ t, m.types[f.type]? = some t → slotCount (f.runs t) ≤ maxLocals := by
      simp only [List.all_eq_true, Func.check_iff]
      exact ⟨fun h => ⟨fun f hf => (h f hf).1, fun f hf => (h f hf).2⟩,
        fun h f hf => ⟨h.1 f hf, h.2 f hf⟩⟩
    constructor
    · intro h
      simp only [Bool.and_eq_true, decide_eq_true_eq] at h
      obtain ⟨⟨⟨⟨⟨⟨⟨⟨⟨⟨⟨⟨htypes, htables⟩, htable⟩, hcount⟩, hmemories⟩, hglobals⟩, hexports⟩, hnodup⟩,
        hstart⟩, helems⟩, hdataCount⟩, hbodies⟩, hdata⟩ := h
      have hbodies := hlocals.1 hbodies
      exact ⟨funcs, ⟨hfuncs, List.all_eq_true.1 htable, List.all_eq_true.1 hmemories,
        List.all_eq_true.1 hglobals, List.all_eq_true.1 hexports, hnodup,
        fun func hfunc => by simpa [hfunc] using hstart, List.all_eq_true.1 helems,
        fun n hn => by simpa [hn] using hdataCount, hbodies.1, List.all_eq_true.1 hdata⟩,
        ⟨by simpa using htypes, htables, hcount, hbodies.2⟩⟩
    · rintro ⟨funcs', h, hlimits⟩
      obtain rfl : funcs = funcs' := Option.some.inj (hfuncs.symm.trans h.functions)
      have hbodies := hlocals.2 ⟨h.bodies, hlimits.locals⟩
      have hstart : m.start.all (fun func => decide (funcs[func]? = some ⟨[], []⟩)) = true := by
        cases hs : m.start with
        | none => rfl
        | some func => simpa using h.start func hs
      have hdataCount : m.dataCount.all (· == m.data.length) = true := by
        cases hd : m.dataCount with
        | none => rfl
        | some n => simpa using h.dataCount n hd
      simp only [Bool.and_eq_true, decide_eq_true_eq, List.all_eq_true]
      exact ⟨⟨⟨⟨⟨⟨⟨⟨⟨⟨⟨⟨hlimits.types, hlimits.tables⟩, h.tables⟩, hlimits.memories⟩, h.memories⟩,
        h.globals⟩, h.exports⟩, h.exports_nodup⟩, hstart⟩, h.elems⟩, hdataCount⟩,
        List.all_eq_true.1 hbodies⟩, h.data⟩

end Stampline.Wasm
