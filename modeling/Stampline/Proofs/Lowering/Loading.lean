import Stampline.Proofs.Lowering.Parts

/-!
# Loading a lowered program

The module that a program is lowered to can be instantiated, and the instance has what the code of
the program relies on.
-/

namespace Stampline

open Wasm (Func FuncType Module ValueType Callee Value Instance State mapInstrs constantsOf
  constantsOf_append)

variable {p : Program} {code : List (Func TextPart)}

theorem mem_constantsOf_flatMap {g : Func TextPart} (hg : g ∈ code) {part : TextPart}
    (h : part ∈ constantsOf g.body) : part ∈ constantsOf (code.flatMap (·.body)) := by
  obtain ⟨before, after, rfl⟩ := List.append_of_mem hg
  simp [constantsOf_append, h]

/-- The further locals of a function are zero at first. -/
theorem zeros_extraLocals (params slots : Nat) :
    (extraLocals params slots).flatMap (fun r => List.replicate r.1 (Value.zero r.2)) =
      List.replicate (slots - params) (Value.i64 0) := by
  unfold extraLocals
  split
  · simp [Value.zero]
  · rw [Nat.sub_eq_zero_of_le (by omega)]
    rfl

/-- A function of a lowered program as the machine finds it. -/
def calleeOf (types : List FuncType) (resolve : TextPart → UInt32) (g : Func TextPart) : Callee :=
  .code ((types[g.type]?).getD ⟨[], []⟩)
    (g.locals.flatMap fun r => List.replicate r.1 (Value.zero r.2)) (mapInstrs resolve g.body)

/-- The functions of a lowered program as the machine finds them. -/
def loadedCallees (p : Program) (code : List (Func TextPart)) : List Callee :=
  HostFunction.all.map Callee.host ++
    code.map (calleeOf (assemble p.arities code).types (poolOf code).resolve)

theorem callees_host (f : HostFunction) :
    (loadedCallees p code).toArray[f.index]? = some (.host f) := by
  rw [List.getElem?_toArray]
  exact HostFunction.getElem?_map_all_append Callee.host _ f

theorem callees_code {i : Nat} {g : Func TextPart} (hg : code[i]? = some g) :
    (loadedCallees p code).toArray[HostFunction.count + i]? =
      some (calleeOf (assemble p.arities code).types (poolOf code).resolve g) := by
  have hlength : (HostFunction.all.map Callee.host).length = HostFunction.count := by simp; rfl
  rw [List.getElem?_toArray, loadedCallees, List.getElem?_append_right (by omega), hlength,
    Nat.add_sub_cancel_left, List.getElem?_map, hg]
  rfl

theorem callees_function (h : p.HasCode code) {i : Nat} {f : Function}
    (hf : p.functions[i]? = some f) : ∃ body slots, f.emit p.functions = .ok (body, slots) ∧
      (loadedCallees p code).toArray[HostFunction.count + i]? = some (.code
        (typeOfArity f.params.length) (List.replicate (slots - f.params.length) (.i64 0))
        (mapInstrs (poolOf code).resolve body)) ∧
      ∃ g ∈ code, g.body = body := by
  obtain ⟨body, slots, hemit, hcode⟩ := h.function i f hf
  refine ⟨body, slots, hemit, ?_, _, List.mem_of_getElem? hcode, rfl⟩
  rw [callees_code hcode, calleeOf, types_function code (List.mem_of_getElem? hf),
    zeros_extraLocals]
  rfl

theorem callees_run (h : p.HasCode code) : ∃ body slots, p.emit = .ok (body, slots) ∧
    (loadedCallees p code).toArray[HostFunction.count + p.functions.length]? = some (.code ⟨[], []⟩
      (List.replicate slots (.i64 0)) (mapInstrs (poolOf code).resolve body)) ∧
    ∃ g ∈ code, g.body = body := by
  obtain ⟨body, slots, hemit, hcode⟩ := h.run
  refine ⟨body, slots, hemit, ?_, _, List.mem_of_getElem? hcode, rfl⟩
  rw [callees_code hcode, calleeOf, types_run, zeros_extraLocals]
  rfl

/-! ## Instances -/

/-- The instance of a lowered program. -/
def instanceOf (p : Program) (code : List (Func TextPart)) : Instance :=
  ⟨(assemble p.arities code).types, (loadedCallees p code).toArray, some 0⟩

/-- The state of a lowered program at first. -/
def stateOf (code : List (Func TextPart)) (env : Environment) : State :=
  { env
    memories := #[(poolOf code).memory]
    data := ((poolOf code).segments.map fun s => s.mode.left s.bytes).toArray }

theorem link_imports : (assemble p.arities code).imports.mapM
    (Wasm.Import.link (assemble p.arities code).types) = some HostFunction.all := by
  refine mapM_eq_some ?_
  have hlink : ∀ f : HostFunction, Wasm.Import.link (assemble p.arities code).types
      ⟨hostSpace, f.name, f.index⟩ = some f := by
    intro f
    have htype := types_host (p := p) code f
    unfold Wasm.Import.link
    rw [if_pos rfl]
    simp only [htype]
    cases f <;> rfl
  simp only [assemble, List.map_map] at hlink ⊢
  exact List.map_congr_left fun f _ => hlink f

theorem callee_funcs (h : p.HasCode code) : (assemble p.arities code).funcs.mapM
    (Func.callee (assemble p.arities code).types) =
      some (code.map (calleeOf (assemble p.arities code).types (poolOf code).resolve)) := by
  refine mapM_eq_some ?_
  show (code.map (·.map (poolOf code).resolve)).map _ = _
  rw [List.map_map, List.map_map]
  refine List.map_congr_left fun g hg => ?_
  have htype : ∃ t, (assemble p.arities code).types[g.type]? = some t :=
    h.forall (motive := fun g => ∃ t, (assemble p.arities code).types[g.type]? = some t)
      (fun f hf _ _ _ => ⟨_, types_function code hf⟩) (fun _ _ _ => ⟨_, types_run p code⟩) g hg
  obtain ⟨t, ht⟩ := htype
  simp [Func.callee, Func.map, calleeOf, ht]

theorem instantiate_assemble (h : p.HasCode code) (env : Environment) :
    (assemble p.arities code).instantiate env = some (instanceOf p code, stateOf code env) := by
  have hmemory : (assemble p.arities code).memory? 0 (poolOf code).limits =
      some (poolOf code).memory := (poolOf code).ofSegments?_segments
  unfold Module.instantiate
  rw [link_imports, callee_funcs h]
  simp only [assemble, List.zipIdx_cons, List.zipIdx_nil, List.mapM_cons, List.mapM_nil] at hmemory ⊢
  rw [hmemory]
  rfl

/-! ## Programs in the machine -/

theorem readsBack_stateOf {g : Func TextPart} (hg : g ∈ code)
    (hdata : (poolOf code).bytes.length < 4294967296) (env : Environment) (text : String)
    (htext : TextPart.offset text ∈ constantsOf g.body) :
    ReadsBack (instanceOf p code) (stateOf code env) (poolOf code).resolve text :=
  ⟨(poolOf code).memory, rfl, TextPool.readText_memory
    (TextPool.mem_ofCode (mem_constantsOf_flatMap hg htext)) hdata⟩

/-- A lowered program in the machine. -/
def Program.HasCode.loaded (h : p.HasCode code) (hparams : checkDefinitionsIn true [] p = .ok ())
    (hdata : (poolOf code).bytes.length < 4294967296) (env : Environment) : Loaded where
  functions := p.functions
  inst := instanceOf p code
  state := stateOf code env
  base := env
  resolve := (poolOf code).resolve
  hosts := callees_host
  nodup_params := nodup_params_of_check hparams
  codes index f hf := by
    obtain ⟨body, slots, hemit, hcallee, g, hg, rfl⟩ := callees_function h hf
    exact ⟨g.body, slots, hemit, hcallee, readsBack_stateOf hg hdata env⟩

end Stampline
