import Stampline.Proofs.Fallible
import Stampline.Proofs.Lowering.Calls
import Stampline.Proofs.Lowering.Texts

/-!
# The parts of a lowered program

The module that a program is lowered to has a function for every function of the program, in the
order of their numbers, and one more for the program itself. The types of all of them are found where
their indices say.
-/

namespace Stampline

open Wasm (Func FuncType Module ValueType)

/-! ## Numbers of parameters -/

theorem mem_aritiesAfter : ∀ {fs : List Function} {before : List Nat} {n : Nat},
    n ∈ aritiesAfter before fs ↔ n ∈ before ∨ ∃ f ∈ fs, f.params.length = n
  | [], before, n => by simp [aritiesAfter]
  | f :: fs, before, n => by
    unfold aritiesAfter
    split
    · rename_i hf
      rw [mem_aritiesAfter]
      refine ⟨Or.imp_right fun ⟨g, hg, hn⟩ => ⟨g, by simp [hg], hn⟩, ?_⟩
      rintro (h | ⟨g, hg, rfl⟩)
      · exact .inl h
      · rcases List.mem_cons.1 hg with rfl | hg
        · exact .inl (by simpa using hf)
        · exact .inr ⟨g, hg, rfl⟩
    · rw [mem_aritiesAfter]
      simp only [List.mem_append, List.mem_cons, List.not_mem_nil, or_false, exists_eq_or_imp,
        or_assoc, eq_comm (a := n)]

/-- The numbers of parameters of the functions of a program, each once. -/
def Program.arities (p : Program) : List Nat := aritiesAfter [] p.functions

theorem Program.mem_arities {p : Program} {f : Function} (hf : f ∈ p.functions) :
    f.params.length ∈ p.arities := mem_aritiesAfter.2 (.inr ⟨f, hf, rfl⟩)

/-! ## Functions -/

/-- `code` is what the functions of a program and the program itself are lowered to. -/
structure Program.HasCode (p : Program) (code : List (Func TextPart)) : Prop where
  length : code.length = p.functions.length + 1
  function : ∀ (i : Nat) (f : Function), p.functions[i]? = some f → ∃ body slots,
    f.emit p.functions = .ok (body, slots) ∧ code[i]? = some
      ⟨HostFunction.count + p.arities.idxOf f.params.length, extraLocals f.params.length slots, body⟩
  run : ∃ body slots, p.emit = .ok (body, slots) ∧ code[p.functions.length]? = some
    ⟨HostFunction.count + p.arities.length, extraLocals 0 slots, body⟩

theorem Program.code_eq_ok {p : Program} {code : List (Func TextPart)} (h : p.code = .ok code) :
    p.HasCode code := by
  obtain ⟨defined, hdefined, h⟩ := bind_eq_ok.1 h
  obtain ⟨⟨body, slots⟩, hrun, h⟩ := bind_eq_ok.1 h
  have hmap := map_eq_of_mapM_eq_ok hdefined
  have hlength : p.functions.length = defined.length := by simpa using congrArg List.length hmap
  obtain rfl := Except.ok.inj h
  refine ⟨by simp [hlength], fun i f hf => ?_, body, slots, hrun, ?_⟩
  · have hlt := (List.getElem?_eq_some_iff.1 hf).1
    have hi := congrArg (·[i]?) hmap
    simp only [List.getElem?_map, hf, Option.map_some] at hi
    obtain ⟨g, hg, hgf⟩ := Option.map_eq_some_iff.1 hi.symm
    obtain ⟨⟨body, slots⟩, hemit, h⟩ := bind_eq_ok.1 hgf.symm
    obtain rfl := Except.ok.inj h
    exact ⟨body, slots, hemit, by rw [List.getElem?_append_left (by omega), hg]; rfl⟩
  · rw [List.getElem?_append_right (by omega), hlength, Nat.sub_self]
    rfl

/-- The code of a definition is that of the function of the same number. -/
theorem Program.HasCode.definition {p : Program} {code : List (Func TextPart)} (h : p.HasCode code)
    {i : Nat} {d : Definition} (hd : p.defined[i]? = some d) :
    ∃ f ∈ p.functions, SameDefinition p.defined f d ∧
      ∃ body slots, f.emit p.functions = .ok (body, slots) ∧ code[i]? = some
        ⟨HostFunction.count + p.arities.idxOf f.params.length, extraLocals f.params.length slots,
          body⟩ := by
  have hlength := p.length_defined
  obtain ⟨hlt, rfl⟩ := List.getElem?_eq_some_iff.1 hd
  have hf := List.getElem?_eq_getElem (l := p.functions) (i := i) (by omega)
  exact ⟨_, List.getElem_mem _, p.forall₂_functions.get (by omega) hlt, h.function i _ hf⟩

/-- The ways in which lowering succeeds. -/
theorem Program.lower_eq_ok {p : Program} {m : Module} (h : p.lower = .ok m) :
    p.firstUnlocated? = none ∧ checkDefinitionsIn true [] p = .ok () ∧
      ∃ code, p.code = .ok code ∧ m = assemble p.arities code := by
  unfold Program.lower at h
  split at h
  · simp at h
  rename_i hlocated
  split at h
  · simp at h
  rename_i hcheck
  split at h
  · simp at h
  rename_i code hcode
  exact ⟨hlocated, hcheck, code, hcode, (Except.ok.inj h).symm⟩

/-! ## Types -/

section Types

variable {p : Program} {code : List (Func TextPart)}

theorem types_host (code : List (Func TextPart)) (f : HostFunction) :
    (assemble p.arities code).types[f.index]? = some f.type := by
  simp only [assemble, List.append_assoc]
  exact HostFunction.getElem?_map_all_append (·.type) _ f

theorem types_function (code : List (Func TextPart)) {f : Function} (hf : f ∈ p.functions) :
    (assemble p.arities code).types[HostFunction.count + p.arities.idxOf f.params.length]? =
      some (typeOfArity f.params.length) := by
  have hlt := List.idxOf_lt_length_of_mem (Program.mem_arities hf)
  have hlength : (HostFunction.all.map (·.type)).length = HostFunction.count := by simp; rfl
  simp only [assemble]
  rw [List.append_assoc, List.getElem?_append_right (by omega), hlength, Nat.add_sub_cancel_left,
    List.getElem?_append_left (by simpa using hlt), List.getElem?_map,
    List.getElem?_eq_getElem hlt, List.getElem_idxOf]
  rfl

theorem types_run (p : Program) (code : List (Func TextPart)) :
    (assemble p.arities code).types[HostFunction.count + p.arities.length]? = some ⟨[], []⟩ := by
  have hlength : (HostFunction.all.map (·.type) ++ p.arities.map typeOfArity).length =
      HostFunction.count + p.arities.length := by simp; rfl
  simp only [assemble]
  rw [List.getElem?_append_right (by omega), hlength, Nat.sub_self]
  rfl

/-- The types of the functions of a program and of the program itself. -/
def Program.signatures (p : Program) : List FuncType :=
  p.functions.map (fun f => typeOfArity f.params.length) ++ [⟨[], []⟩]

/-- The types of all functions of a lowered program, those of the host first. -/
def Program.funcTypes (p : Program) : List FuncType :=
  HostFunction.all.map (·.type) ++ p.signatures

theorem Program.funcTypes_host (p : Program) (f : HostFunction) :
    p.funcTypes[f.index]? = some f.type :=
  HostFunction.getElem?_map_all_append (·.type) p.signatures f

theorem Program.funcTypes_function {p : Program} {i : Nat} {f : Function}
    (hf : p.functions[i]? = some f) :
    p.funcTypes[HostFunction.count + i]? = some (typeOfArity f.params.length) := by
  have hlt := (List.getElem?_eq_some_iff.1 hf).1
  have hlength : (HostFunction.all.map (·.type)).length = HostFunction.count := by simp; rfl
  rw [funcTypes, List.getElem?_append_right (by omega), hlength, Nat.add_sub_cancel_left, signatures,
    List.getElem?_append_left (by simpa using hlt), List.getElem?_map, hf]
  rfl

theorem Program.funcTypes_run (p : Program) :
    p.funcTypes[HostFunction.count + p.functions.length]? = some ⟨[], []⟩ := by
  have hlength : (HostFunction.all.map (·.type)).length = HostFunction.count := by simp; rfl
  rw [funcTypes, List.getElem?_append_right (by omega), hlength, Nat.add_sub_cancel_left, signatures,
    List.getElem?_append_right (by simp)]
  simp

theorem Program.length_funcTypes (p : Program) :
    p.funcTypes.length = HostFunction.count + p.functions.length + 1 := by
  have hlength : (HostFunction.all.map (·.type)).length = HostFunction.count := by simp; rfl
  rw [funcTypes, List.length_append, hlength, signatures]
  simp [Nat.add_assoc]

/-- The types of functions line up with the functions. -/
theorem Program.HasCode.signatures (h : p.HasCode code) :
    code.map (fun g => (assemble p.arities code).types[g.type]?) = p.signatures.map some := by
  refine List.ext_getElem? fun i => ?_
  have hlength := h.length
  simp only [List.getElem?_map, Program.signatures]
  rcases Nat.lt_trichotomy i p.functions.length with hi | rfl | hi
  · obtain ⟨body, slots, -, hcode⟩ := h.function i _ (List.getElem?_eq_getElem hi)
    rw [hcode, List.getElem?_append_left (by simpa using hi), List.getElem?_map,
      List.getElem?_eq_getElem hi, Option.map_some, types_function code (List.getElem_mem hi)]
    rfl
  · obtain ⟨body, slots, -, hcode⟩ := h.run
    rw [hcode, List.getElem?_append_right (by simp), Option.map_some, types_run]
    simp
  · rw [List.getElem?_eq_none (by omega), List.getElem?_eq_none (by simp; omega)]
    rfl

theorem Program.HasCode.funcTypes? (h : p.HasCode code) :
    (assemble p.arities code).funcTypes? = some p.funcTypes := by
  refine mapM_eq_some ?_
  rw [List.map_append, Program.funcTypes, List.map_append, List.map_map, List.map_map]
  have hhosts : HostFunction.all.map (fun f => (assemble p.arities code).types[f.index]?) =
      (HostFunction.all.map (·.type)).map some := by
    rw [List.map_map]
    exact List.map_congr_left fun f _ => types_host code f
  have hcode := h.signatures
  simp only [assemble, List.map_map, Function.comp_def, Wasm.Func.map] at hhosts hcode ⊢
  rw [hhosts, hcode]

/-- What holds of the code of every function and of the code of the program holds of all code. -/
theorem Program.HasCode.forall (h : p.HasCode code) {motive : Func TextPart → Prop}
    (function : ∀ f ∈ p.functions, ∀ body slots, f.emit p.functions = .ok (body, slots) → motive
      ⟨HostFunction.count + p.arities.idxOf f.params.length, extraLocals f.params.length slots, body⟩)
    (run : ∀ body slots, p.emit = .ok (body, slots) → motive
      ⟨HostFunction.count + p.arities.length, extraLocals 0 slots, body⟩) :
    ∀ g ∈ code, motive g := by
  intro g hg
  obtain ⟨i, hi⟩ := List.mem_iff_getElem?.1 hg
  have hlt := (List.getElem?_eq_some_iff.1 hi).1
  rw [h.length] at hlt
  by_cases hlast : i = p.functions.length
  · obtain ⟨body, slots, hemit, hcode⟩ := h.run
    obtain rfl := Option.some.inj ((hlast ▸ hi).symm.trans hcode)
    exact run body slots hemit
  · have hif : i < p.functions.length := by omega
    obtain ⟨body, slots, hemit, hcode⟩ := h.function i _ (List.getElem?_eq_getElem hif)
    obtain rfl := Option.some.inj (hi.symm.trans hcode)
    exact function _ (List.getElem_mem hif) body slots hemit

end Types

end Stampline
