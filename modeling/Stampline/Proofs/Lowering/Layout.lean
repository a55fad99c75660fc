import Stampline.Proofs.Lowering.Correct
import Stampline.Proofs.Lowering.References
import Stampline.Proofs.Lowering.Valid

/-!
# The layout of a lowered program

Every program that is lowered becomes a valid module. The functions of the module are the definitions
of the program in the order in which they begin, with the program itself behind them, and every call
goes to the host or to the definition that the name of the callee refers to.
-/

namespace Stampline

open Wasm (Func FuncType Module Structured slotCount)

variable {p : Program} {code : List (Func TextPart)}

/-- The function of a module that comes at `index` among those with code belongs to a block that
stands in the blocks `around`. -/
structure Wasm.Func.BelongsTo (p : Program) (m : Module) (g : Func UInt32) (t : FuncType)
    (block : List Stmt) (around : List (List Stmt)) : Prop where
  /-- It has the type `t`. -/
  type : m.types[g.type]? = some t
  /-- Its branches are those of its loops, it keeps to its locals, and it calls functions that there
  are. -/
  structured : Structured (slotCount (g.runs t)) (HostFunction.count + p.defined.length + 1) g.body
  /-- Apart from functions of the host, it calls the definitions that names refer to. -/
  calls : (definedCalls g.body).map (p.defined[·]?) =
    ((calleesIn block).filterMap (definition? · around)).map some

/-- A module consists of the definitions of a program and the program itself. -/
structure Program.LaidOut (p : Program) (m : Module) : Prop where
  /-- The functions of the host are imported, with their types. -/
  imports : m.imports.map (fun i => (i.space, i.name, m.types[i.type]?)) =
    HostFunction.all.map fun f => (hostSpace, f.name, some f.type)
  /-- There is a function for every definition and one for the program. -/
  length : m.funcs.length = p.defined.length + 1
  /-- Functions come in the order of the definitions. -/
  function : ∀ (i : Nat) (d : Definition), p.defined[i]? = some d → ∃ g, m.funcs[i]? = some g ∧
    Func.BelongsTo p m g (typeOfArity d.params.length) d.body d.around
  /-- The last function is that of the program. -/
  run : ∃ g, m.funcs[p.defined.length]? = some g ∧ Func.BelongsTo p m g ⟨[], []⟩ p [p]
  /-- It is exported. -/
  program : m.program? = some (HostFunction.count + p.defined.length)
  /-- So is the memory, and all texts lie in it from its beginning on. -/
  memory : m.exported? memoryName .memory = some 0 ∧ ∃ l, m.memories = [l] ∧
    ∀ s ∈ m.data, s.mode = .active 0 [.const32 0] ∧ s.bytes.length ≤ l.min * Wasm.pageSize

/-- The calls of emitted code go to the definitions that names refer to. -/
theorem map_definedCalls {site : Site} {block : List Stmt} {around : List (List Stmt)} {n m : Nat}
    {body : List Code} (h : BlockCode site block n body m)
    (hscope : Numbered p.defined site.scope around) :
    (definedCalls body).map (p.defined[·]?) =
      ((calleesIn block).filterMap (definition? · around)).map some := by
  rw [h.calls, List.map_filterMap, List.map_filterMap]
  exact List.filterMap_congr fun id _ => hscope.map_resolve? id

theorem definedCalls_mapInstrs {slots funcs : Nat} {body : List Code}
    (h : Structured slots funcs body) (resolve : TextPart → UInt32) :
    definedCalls (Wasm.mapInstrs resolve body) = definedCalls body := by
  rw [definedCalls, h.callsOf_map, definedCalls]

theorem belongsTo_function {f : Function} (hf : f ∈ p.functions) {d : Definition}
    (hd : SameDefinition p.defined f d) {body : List Code} {slots : Nat}
    (hemit : f.emit p.functions = .ok (body, slots)) (resolve : TextPart → UInt32) :
    Func.BelongsTo p (assemble p.arities code)
      ⟨HostFunction.count + p.arities.idxOf f.params.length, extraLocals f.params.length slots,
        Wasm.mapInstrs resolve body⟩ (typeOfArity d.params.length) d.body d.around := by
  have hstructured := Function.structured_emit hemit
  obtain ⟨body, hbody, rfl⟩ := Function.emit_eq_ok hemit
  have hparams : d.params.length = f.params.length := by rw [← hd.params, List.length_map]
  rw [hparams]
  refine ⟨types_function code hf, ?_, ?_⟩
  · show Structured (slotCount (localRuns f.params.length slots)) _ _
    rw [slotCount_localRuns, p.length_defined]
    exact (hstructured.map resolve).of_le (Nat.le_max_right _ _)
  · rw [definedCalls_mapInstrs hstructured, definedCalls_append, definedCalls_const64,
      definedCalls_nil, List.append_nil, ← hd.body]
    exact map_definedCalls hbody hd.numbered

theorem belongsTo_run {body : List Code} {slots : Nat} (hemit : p.emit = .ok (body, slots))
    (resolve : TextPart → UInt32) :
    Func.BelongsTo p (assemble p.arities code)
      ⟨HostFunction.count + p.arities.length, extraLocals 0 slots, Wasm.mapInstrs resolve body⟩
      ⟨[], []⟩ p [p] := by
  have hstructured := Program.structured_emit hemit
  refine ⟨types_run p code, ?_, ?_⟩
  · show Structured (slotCount (localRuns 0 slots)) _ _
    rw [slotCount_localRuns, p.length_defined]
    exact (hstructured.map resolve).of_le (Nat.le_max_right _ _)
  · rw [definedCalls_mapInstrs hstructured]
    exact map_definedCalls (Program.emit_eq_ok hemit) p.numbered

/-- The texts of a program lie in its memory from the beginning on. -/
theorem segments_fit (pool : TextPool) : ∀ s ∈ pool.segments,
    s.mode = .active 0 [.const32 0] ∧ s.bytes.length ≤ pool.limits.min * Wasm.pageSize := by
  unfold TextPool.segments
  split
  · nofun
  · refine List.forall_mem_singleton.2 ⟨rfl, ?_⟩
    have hpage : Wasm.pageSize = 65536 := rfl
    simp only [TextPool.limits, hpage]
    omega

/-- The module that a program is lowered to consists of the definitions of the program and the
program itself. -/
theorem laidOut_assemble (h : p.HasCode code) : p.LaidOut (assemble p.arities code) where
  imports := by
    show (HostFunction.all.map fun f => (⟨hostSpace, f.name, f.index⟩ : Wasm.Import)).map _ = _
    rw [List.map_map]
    refine List.map_congr_left fun f _ => ?_
    show (hostSpace, f.name, (assemble p.arities code).types[f.index]?) = _
    rw [types_host]
  length := by
    rw [p.length_defined, ← h.length]
    exact List.length_map _
  function i d hd := by
    obtain ⟨f, hf, hsame, body, slots, hemit, hcode⟩ := h.definition hd
    refine ⟨_, by rw [assemble, List.getElem?_map, hcode]; rfl, ?_⟩
    exact belongsTo_function hf hsame hemit _
  run := by
    obtain ⟨body, slots, hemit, hcode⟩ := h.run
    refine ⟨_, by rw [p.length_defined, assemble, List.getElem?_map, hcode]; rfl, ?_⟩
    exact belongsTo_run hemit _
  program := by rw [p.length_defined, program?_assemble h]
  memory := ⟨rfl, _, rfl, segments_fit (poolOf code)⟩

/-- Every program that is lowered becomes a valid module that consists of its definitions and the
program itself. -/
theorem executable_valid {source : String} {x : Executable} (hx : p.executable source = .ok x) :
    ∃ m : Module, x.bytes = m.encode ∧
      (x.bytes.length < 4294967296 → Wasm.decode x.bytes = some m) ∧
      ((m.data.flatMap (·.bytes)).length < 4294967296 →
        m.WellTyped p.funcTypes ∧ (m.WithinLimits → m.check = true)) ∧
      p.LaidOut m := by
  obtain ⟨m, hm, hbytes⟩ := Program.executable_eq_ok hx
  obtain ⟨-, -, code, hcode, rfl⟩ := Program.lower_eq_ok hm
  have h := Program.code_eq_ok hcode
  refine ⟨_, hbytes, fun hsize => ?_, fun hdata => ?_, laidOut_assemble h⟩
  · rw [hbytes] at hsize ⊢
    exact (Wasm.decode_encode (plain_assemble h)).resolve_right fun hlarge => hlarge.1 hsize
  · rw [data_assemble] at hdata
    have htyped := wellTyped_assemble h hdata
    exact ⟨htyped, fun hlimits => Module.check_iff.2 ⟨_, htyped, hlimits⟩⟩

/-- A program that is lowered. -/
theorem executable_valid_countdownFrom_three : ∃ x,
    (countdownFrom 3).executable "main" = .ok x ∧ ∃ m : Module, x.bytes = m.encode ∧
      (x.bytes.length < 4294967296 → Wasm.decode x.bytes = some m) ∧
      ((m.data.flatMap (·.bytes)).length < 4294967296 →
        m.WellTyped (countdownFrom 3).funcTypes ∧ (m.WithinLimits → m.check = true)) ∧
      (countdownFrom 3).LaidOut m := by
  have hlowered : ((countdownFrom 3).executable "main").toOption.isSome = true := by
    decide +kernel
  cases hx : (countdownFrom 3).executable "main" with
  | error e => simp [hx, Except.toOption] at hlowered
  | ok x => exact ⟨x, rfl, executable_valid hx⟩

end Stampline
