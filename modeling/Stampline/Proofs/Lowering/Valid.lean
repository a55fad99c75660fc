import Stampline.Pipeline
import Stampline.Proofs.Lowering.Parts
import Stampline.Proofs.Lowering.Sizes
import Stampline.Proofs.Lowering.Typing
import Stampline.Proofs.Wasm.RoundTrip

/-!
# Lowered programs are valid

The module that a program is lowered to is well typed, unless its texts do not fit in a memory, and
its bytes are those of no other module.
-/

namespace Stampline

open Wasm (Func FuncType Module ValueType Leads slotCount slotCount_append slotCount_ones
  slotType?_eq_some checkInstrs_map mapInstrs encodeVec encodeSection encodeSized
  encodeUnlessEmpty Segment unsignedLeb preamble)
open Wasm.Decoder (length_le_encodeVec length_encode_le_encodeVec unsignedLeb_ne_nil NameFits Passes
  passes_structured)
open Wasm (Structured)

variable {p : Program} {code : List (Func TextPart)}

/-! ## Bodies -/

theorem slotCount_extraLocals (params slots : Nat) :
    slotCount (extraLocals params slots) = slots - params := by
  unfold extraLocals
  split
  · rfl
  · simp only [slotCount]
    omega

/-- The locals of a function of a lowered program, in runs. -/
def localRuns (arity slots : Nat) : List (Nat × ValueType) :=
  (List.replicate arity .i64).map (fun p => (1, p)) ++ extraLocals arity slots

theorem slotCount_localRuns (arity slots : Nat) :
    slotCount (localRuns arity slots) = max arity slots := by
  rw [localRuns, slotCount_append, slotCount_ones, slotCount_extraLocals, List.length_replicate]
  omega

theorem slotType?_localRuns {arity slots k : Nat} (hk : k < slots) :
    Wasm.slotType? (localRuns arity slots) k = some .i64 := by
  refine slotType?_eq_some (fun run hrun => ?_) (by rw [slotCount_localRuns]; omega)
  rcases List.mem_append.1 hrun with hrun | hrun
  · obtain ⟨v, hv, rfl⟩ := List.mem_map.1 hrun
    exact (List.mem_replicate.1 hv).2
  · unfold extraLocals at hrun
    split at hrun
    · rw [List.mem_singleton.1 hrun]
    · simp at hrun

/-- What code of a lowered program may refer to. -/
theorem suits_context (code : List (Func TextPart)) {site : Site} (results : List ValueType)
    (arity slots : Nat) (hsite : site.functions = p.functions)
    (hresults : site.inFunction = true → results = [.i64]) :
    Suits site slots { (assemble p.arities code).context p.funcTypes with
      locals := localRuns arity slots, results := results } where
  slot _ hk := slotType?_localRuns hk
  host := p.funcTypes_host
  func _ _ hf := Program.funcTypes_function (hsite ▸ hf)
  results := hresults

theorem wellTyped_function {f : Function} (hf : f ∈ p.functions) {body : List Code} {slots : Nat}
    (hemit : f.emit p.functions = .ok (body, slots)) (resolve : TextPart → UInt32) :
    Func.WellTyped ((assemble p.arities code).context p.funcTypes)
      ⟨HostFunction.count + p.arities.idxOf f.params.length, extraLocals f.params.length slots,
        mapInstrs resolve body⟩ := by
  refine ⟨_, types_function code hf, ?_⟩
  obtain ⟨body, hbody, rfl⟩ := Function.emit_eq_ok hemit
  obtain ⟨isOpen, hleads⟩ := hbody.leadsOn
    (suits_context code [.i64] f.params.length slots rfl fun _ => rfl) hbody.slots_le
    (Nat.le_refl _) [[.i64]] false
  have hends : Leads _ [[.i64]] (body ++ [.const64 0]) {} _ := hleads.append (leads_const 0)
  rw [checkInstrs_map]
  exact congrArg (Wasm.endsWith [.i64]) hends

theorem wellTyped_run {body : List Code} {slots : Nat} (hemit : p.emit = .ok (body, slots))
    (resolve : TextPart → UInt32) :
    Func.WellTyped ((assemble p.arities code).context p.funcTypes)
      ⟨HostFunction.count + p.arities.length, extraLocals 0 slots, mapInstrs resolve body⟩ := by
  refine ⟨_, types_run p code, ?_⟩
  obtain ⟨isOpen, hleads⟩ := (Program.emit_eq_ok hemit).leadsOn
    (suits_context code [] 0 slots rfl (by simp)) (Nat.zero_le _) (Nat.le_refl _) [[]] false
  rw [checkInstrs_map]
  exact hleads.endsWith_nil

/-! ## Modules -/

theorem data_assemble : ((assemble p.arities code).data.flatMap (·.bytes)) =
    (poolOf code).bytes := by
  simp only [assemble, TextPool.segments]
  split
  · rename_i h
    simp [List.isEmpty_iff.1 h]
  · simp

theorem exports_check (h : p.HasCode code) : ∀ e ∈ (assemble p.arities code).exports,
    e.check ((assemble p.arities code).context p.funcTypes) = true := by
  have hlength := h.length
  have hfuncs := p.length_funcTypes
  have hcount : HostFunction.count = 4 := rfl
  refine List.forall_mem_cons.2 ⟨decide_eq_true ?_, List.forall_mem_singleton.2 rfl⟩
  show HostFunction.count + code.length - 1 < p.funcTypes.length
  omega

/-- The module that a program is lowered to is well typed if its texts fit in a memory. -/
theorem wellTyped_assemble (h : p.HasCode code)
    (hdata : (poolOf code).bytes.length < 4294967296) :
    (assemble p.arities code).WellTyped p.funcTypes where
  functions := h.funcTypes?
  tables := List.forall_mem_nil _
  memories := by
    simp only [assemble, List.mem_singleton, forall_eq, Wasm.Limits.check, TextPool.limits,
      Wasm.Limits.maxPages, Wasm.pageSize, Bool.and_true, decide_eq_true_eq, Bool.false_eq_true,
      if_false]
    omega
  globals := List.forall_mem_nil _
  exports := exports_check h
  exports_nodup := show [runName, memoryName].Nodup by decide
  start := by
    intro _ h
    cases h
  elems := List.forall_mem_nil _
  dataCount := by
    intro _ h
    cases h
  bodies := by
    simp only [assemble, List.forall_mem_map]
    exact h.forall (fun f hf body slots hemit => wellTyped_function hf hemit _)
      fun body slots hemit => wellTyped_run hemit _
  data := by
    simp only [assemble, TextPool.segments]
    split
    · exact List.forall_mem_nil _
    · simp only [List.mem_singleton, forall_eq]
      rfl

/-! ## Limits -/

/-- A program has a function that an engine does not admit: one with more parameters or with more slots
than a module may have. -/
def Program.TooLarge (p : Program) : Prop :=
  Wasm.maxLocals < p.slots ∨
    ∃ d ∈ p.defined, Wasm.maxParams < d.params.length ∨ Wasm.maxLocals < d.slots

/-- The locals of a function of the module are the slots of its definition. -/
theorem slotCount_function {f : Function} {d : Definition} (hd : SameDefinition p.defined f d)
    {body : List Code} {slots : Nat} (hemit : f.emit p.functions = .ok (body, slots)) :
    slotCount (localRuns f.params.length slots) = d.slots := by
  obtain ⟨_, hbody, -⟩ := Function.emit_eq_ok hemit
  have hparams := f.length_params_le
  have hlocals := hbody.slots_le
  have hslots := Function.slots_eq hd.params.symm hd.body.symm hd.numbered.knows hemit
  rw [slotCount_localRuns]
  omega

theorem slotCount_run {body : List Code} {slots : Nat} (hemit : p.emit = .ok (body, slots)) :
    slotCount (localRuns 0 slots) = p.slots := by
  rw [slotCount_localRuns, Nat.zero_max, Program.slots_eq hemit]

/-- An engine admits the module exactly if the program is not too large. -/
theorem withinLimits_assemble (h : p.HasCode code) :
    (assemble p.arities code).WithinLimits ↔ ¬p.TooLarge := by
  constructor
  · intro hlimits hlarge
    rcases hlarge with hrun | ⟨d, hd, hlarge⟩
    · obtain ⟨body, slots, hemit, hcode⟩ := h.run
      have hle : slotCount (localRuns 0 slots) ≤ Wasm.maxLocals :=
        hlimits.locals _ (List.mem_map_of_mem (List.mem_of_getElem? hcode)) _ (types_run p code)
      rw [slotCount_run hemit] at hle
      omega
    · obtain ⟨i, hi⟩ := List.mem_iff_getElem?.1 hd
      obtain ⟨f, hf, hsame, body, slots, hemit, hcode⟩ := h.definition hi
      have htype := types_function code hf
      have hparams := (hlimits.types _ (List.mem_of_getElem? htype)).1
      rw [typeOfArity, List.length_replicate, ← List.length_map (·.name), hsame.params] at hparams
      have hle : slotCount (localRuns f.params.length slots) ≤ Wasm.maxLocals :=
        hlimits.locals _ (List.mem_map_of_mem (List.mem_of_getElem? hcode)) _ htype
      rw [slotCount_function hsame hemit] at hle
      omega
  · intro hsmall
    have hdefined : ∀ d ∈ p.defined,
        d.params.length ≤ Wasm.maxParams ∧ d.slots ≤ Wasm.maxLocals := by
      intro d hd
      by_contra hlarge
      exact hsmall (.inr ⟨d, hd, by omega⟩)
    have hrun : p.slots ≤ Wasm.maxLocals := Nat.not_lt.1 fun hlarge => hsmall (.inl hlarge)
    refine ⟨?_, Nat.zero_le _, show 1 ≤ 100 by decide, List.forall_mem_map.2 ?_⟩
    · intro t ht
      simp only [assemble, List.mem_append, List.mem_map, List.mem_singleton] at ht
      rcases ht with (⟨host, -, rfl⟩ | ⟨n, hn, rfl⟩) | rfl
      · cases host <;> decide
      · rcases mem_aritiesAfter.1 hn with hn | ⟨f, hf, rfl⟩
        · cases hn
        · obtain ⟨d, hd, hsame⟩ := Program.exists_defined hf
          have hparams := (hdefined d hd).1
          rw [← hsame.params, List.length_map] at hparams
          rw [typeOfArity, List.length_replicate]
          exact ⟨hparams, show 1 ≤ 1000 by decide⟩
      · decide
    · refine h.forall (fun f hf body slots hemit t ht => ?_) fun body slots hemit t ht => ?_
      · obtain ⟨d, hd, hsame⟩ := Program.exists_defined hf
        obtain rfl := Option.some.inj ((types_function code hf).symm.trans ht)
        show slotCount (localRuns f.params.length slots) ≤ _
        rw [slotCount_function hsame hemit]
        exact (hdefined d hd).2
      · obtain rfl := Option.some.inj ((types_run p code).symm.trans ht)
        show slotCount (localRuns 0 slots) ≤ _
        rw [slotCount_run hemit]
        exact hrun

/-- The module is valid exactly if the program is not too large, if its texts fit in a memory. -/
theorem check_assemble (h : p.HasCode code) (hdata : (poolOf code).bytes.length < 4294967296) :
    (assemble p.arities code).check = true ↔ ¬p.TooLarge :=
  Wasm.Module.check_iff.trans
    ⟨fun hcheck => (withinLimits_assemble h).1 hcheck.choose_spec.2,
      fun hsmall => ⟨_, wellTyped_assemble h hdata, (withinLimits_assemble h).2 hsmall⟩⟩

/-! ## The program of the module -/

/-- The program of the module is its last function. -/
theorem program?_assemble (h : p.HasCode code) :
    (assemble p.arities code).program? = some (HostFunction.count + p.functions.length) := by
  have hexport : (assemble p.arities code).exported? runName .func =
      some (HostFunction.count + p.functions.length) := by
    show some (HostFunction.count + code.length - 1) = _
    rw [h.length]
    rfl
  unfold Module.program?
  simp only [hexport, h.funcTypes?, Option.bind_eq_bind, Option.bind_some, p.funcTypes_run, if_true]

/-! ## Bytes -/

/-- Some of the sections of a module, which come one behind the other. -/
theorem length_sections_le (m : Module) :
    (encodeVec FuncType.encode m.types).length +
      (encodeVec (fun f => unsignedLeb f.type) m.funcs).length +
      (encodeVec Func.encode m.funcs).length +
      (encodeUnlessEmpty 11 Segment.encode m.data).length + 8 ≤ m.encode.length := by
  simp only [Module.encode, encodeSection, encodeSized, List.length_append, List.length_cons,
    preamble]
  omega

section Bytes

theorem length_code_le (p : Program) (code : List (Func TextPart)) :
    code.length + 8 ≤ (assemble p.arities code).encode.length := by
  have hsections := length_sections_le (assemble p.arities code)
  have hcount : code.length ≤ (encodeVec (fun f => unsignedLeb f.type)
      (assemble p.arities code).funcs).length := by
    refine Nat.le_trans ?_ (length_le_encodeVec _ fun f _ => unsignedLeb_ne_nil f.type)
    simp [assemble]
  omega

theorem length_data_le (p : Program) (code : List (Func TextPart)) : (poolOf code).bytes.length ≤
    (assemble p.arities code).encode.length := by
  have hsections := length_sections_le (assemble p.arities code)
  have hdata : (poolOf code).bytes.length ≤
      (encodeUnlessEmpty 11 Segment.encode (assemble p.arities code).data).length := by
    simp only [assemble, TextPool.segments]
    split
    · rename_i h
      simp [List.isEmpty_iff.1 h]
    · simp only [encodeUnlessEmpty, List.isEmpty_cons, Bool.false_eq_true, if_false, encodeSection,
        encodeSized, encodeVec, Segment.encode, List.flatMap_cons, List.length_cons,
        List.length_append]
      omega
  omega

/-- The parameters of a function and the bytes of its code are no more than the bytes of the
module. -/
theorem size_le {g : Func TextPart} (hg : g ∈ code) {t : FuncType}
    (ht : t ∈ (assemble p.arities code).types) :
    t.params.length + codeSize (poolOf code).resolve g.body ≤
      (assemble p.arities code).encode.length := by
  have hsections := length_sections_le (assemble p.arities code)
  have htype := length_encode_le_encodeVec FuncType.encode ht
  have hparams : t.params.length ≤ t.encode.length := by
    have : t.params.length ≤ (encodeVec (fun v : ValueType => [v.code]) t.params).length :=
      length_le_encodeVec _ fun _ _ => by simp
    simp only [FuncType.encode, List.length_cons, List.length_append]
    omega
  have hmem : g.map (poolOf code).resolve ∈ (assemble p.arities code).funcs :=
    List.mem_map_of_mem hg
  have hfunc := length_encode_le_encodeVec Func.encode hmem
  have hbody : codeSize (poolOf code).resolve g.body ≤
      (g.map (poolOf code).resolve).encode.length := by
    simp only [Func.encode, encodeSized, codeSize, Func.map, List.length_append]
    omega
  omega

theorem lt_of_mem_extraLocals {arity slots : Nat} {run : Nat × ValueType}
    (h : run ∈ extraLocals arity slots) : run.1 ≤ slots - arity := by
  unfold extraLocals at h
  split at h
  · obtain rfl := List.mem_singleton.1 h
    exact Nat.le_refl _
  · simp at h

/-- Code that is structured, and has no more slots than it has bytes and parameters, is read back as
a function of its type if the module is not too large. -/
theorem plain_body (h : p.HasCode code) {g : Func TextPart} (hg : g ∈ code) {t : FuncType}
    (htype : (assemble p.arities code).types[g.type]? = some t) {slots : Nat}
    (hstructured : Structured slots (HostFunction.count + p.functions.length + 1) g.body)
    (hslots : slots ≤ t.params.length + codeSize (poolOf code).resolve g.body)
    (hlocals : g.locals = extraLocals t.params.length slots) :
    Passes ((assemble p.arities code).encode.length < 4294967296)
      (mapInstrs (poolOf code).resolve g.body) ∧
    g.type < (assemble p.arities code).types.length ∧
    ((assemble p.arities code).encode.length < 4294967296 →
      ∀ run ∈ g.locals, run.1 < 4294967296) := by
  have hlength := length_code_le p code
  have hcount : HostFunction.count = 4 := rfl
  rw [h.length] at hlength
  have hsize := size_le hg (List.mem_of_getElem? htype)
  refine ⟨passes_structured (hstructured.map _) (fun hok => by omega) (fun hok => by omega),
    (List.getElem?_eq_some_iff.1 htype).1, fun hok run hrun => ?_⟩
  rw [hlocals] at hrun
  have := lt_of_mem_extraLocals hrun
  omega

/-- What is read back of the functions of a lowered program. -/
theorem plain_bodies (h : p.HasCode code) : ∀ g ∈ code, g ∈ code →
    Passes ((assemble p.arities code).encode.length < 4294967296)
      (mapInstrs (poolOf code).resolve g.body) ∧
    g.type < (assemble p.arities code).types.length ∧
    ((assemble p.arities code).encode.length < 4294967296 →
      ∀ run ∈ g.locals, run.1 < 4294967296) := by
  refine h.forall (fun f hf body slots hemit hg => ?_) fun body slots hemit hg => ?_
  · refine plain_body h hg (types_function code hf) (Function.structured_emit hemit) ?_ ?_
    · simpa [typeOfArity] using Function.slots_le_size (poolOf code).resolve hemit
    · simp [typeOfArity]
  · refine plain_body h hg (types_run p code) (Program.structured_emit hemit) ?_ rfl
    simpa using Program.slots_le_size (poolOf code).resolve hemit

/-- A lowered program is one of the modules that are read back from their bytes. -/
theorem plain_assemble (h : p.HasCode code) :
    (assemble p.arities code).Plain ((assemble p.arities code).encode.length < 4294967296) where
  tables := rfl
  globals := rfl
  start := rfl
  elems := rfl
  dataCount := rfl
  size := id
  imports := by
    have hfits : ∀ f : HostFunction, NameFits hostSpace ∧ NameFits f.name := by
      intro f
      simp only [NameFits, Wasm.length_textBytes]
      cases f <;> decide
    refine List.forall_mem_map.2 fun f _ => ⟨(hfits f).1, (hfits f).2, ?_⟩
    exact (List.getElem?_eq_some_iff.1 (types_host (p := p) code f)).1
  bodies := List.forall_mem_map.2 fun g hg => plain_bodies h g hg hg
  memories := by
    refine ⟨List.cons_ne_nil _ _, List.forall_mem_singleton.2 ⟨rfl, rfl, fun hok => ?_⟩⟩
    have hdata := length_data_le p code
    have hpage : Wasm.pageSize = 65536 := rfl
    simp only [TextPool.limits, hpage]
    omega
  exports := by
    have hfits : NameFits runName ∧ NameFits memoryName := by
      simp only [NameFits, Wasm.length_textBytes]
      decide
    have hlength := length_code_le p code
    have hcount : HostFunction.count = 4 := rfl
    refine List.forall_mem_cons.2 ⟨⟨hfits.1, fun hok => ?_⟩,
      List.forall_mem_singleton.2 ⟨hfits.2, fun _ => by decide⟩⟩
    show HostFunction.count + code.length - 1 < 4294967296
    omega
  data := by
    simp only [assemble, TextPool.segments]
    split
    · exact List.forall_mem_nil _
    · exact List.forall_mem_singleton.2 ⟨0, rfl⟩

end Bytes

/-! ## Executables -/

theorem read_encode (m : Module) : Wasm.read m.encode = Wasm.decode m.encode := by
  refine if_pos ?_
  simp [Module.encode, Wasm.preamble]

theorem Program.executable_eq_ok {p : Program} {source : String} {x : Executable}
    (h : p.executable source = .ok x) : ∃ m, p.lower = .ok m ∧ x.bytes = m.encode := by
  unfold Program.executable at h
  split at h
  · simp at h
  · exact ⟨_, by assumption, congrArg _ (Except.ok.inj h).symm⟩

end Stampline
