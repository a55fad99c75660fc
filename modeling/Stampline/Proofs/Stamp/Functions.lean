import Mathlib.Data.List.Forall2
import Stampline.Lowering.Code
import Stampline.Proofs.Stamp.Stamped

/-!
# Stamping and functions

Stamping changes neither which functions a program has, nor what they are called, which parameters and
locals they have, or what names mean inside them. It changes nothing but their bodies.
-/

namespace Stampline

/-- `f'` is the function `f` with its body stamped. -/
structure StampsFunction (target : String) (place : Option Span → Prop) (texts : List String)
    (f f' : Function) : Prop where
  name : f'.name = f.name
  params : f'.params = f.params
  scope : f'.scope = f.scope
  body : StampsBlock target place true texts f.body f'.body

section Same

variable {target : String} {place : Option Span → Prop}

theorem StampsBlock.isEmpty_eq {giving : Bool} {texts : List String} {ss ss' : List Stmt} :
    StampsBlock target place giving texts ss ss' → ss'.isEmpty = ss.isEmpty := by
  intro h
  cases h <;> rfl

/-! ## Arguments -/

theorem StampsKeywords.isEmpty_eq {texts : List String} {ks ks' : List Keyword} :
    StampsKeywords target place texts ks ks' → ks'.isEmpty = ks.isEmpty := by
  intro h
  cases h <;> rfl

theorem StampsArgs.length_args {texts : List String} {es es' : List Expr}
    (h : StampsArgs target place texts es es') : es'.length = es.length := by
  induction es generalizing texts es' with
  | nil =>
    cases h
    rfl
  | cons e es ih =>
    cases h with
    | cons _ hrest => exact congrArg (· + 1) (ih hrest)

theorem StampsKeywords.length_keywords {texts : List String} {ks ks' : List Keyword}
    (h : StampsKeywords target place texts ks ks') : ks'.length = ks.length := by
  induction ks generalizing texts ks' with
  | nil =>
    cases h
    rfl
  | cons k ks ih =>
    cases h with
    | cons _ hrest => exact congrArg (· + 1) (ih hrest)

/-! ## Locals -/

mutual

theorem StampsStmt.targets_eq {texts : List String} {s s' : Stmt} :
    StampsStmt target place texts s s' → s'.targets = s.targets
  | .define _ | .giveZero | .give _ | .assign _ | .eval _ | .pass => rfl
  | .branch _ hbody horelse => by
    rw [Stmt.targets, Stmt.targets, hbody.targets_eq, horelse.targets_eq]
  | .loop _ hbody => hbody.targets_eq

theorem StampsBlock.targets_eq {giving : Bool} {texts : List String} {ss ss' : List Stmt} :
    StampsBlock target place giving texts ss ss' → targetsIn ss' = targetsIn ss
  | .nil | .last _ _ => rfl
  | .cons h hrest _ => by rw [targetsIn, targetsIn, h.targets_eq, hrest.targets_eq]

end

theorem StampsFunction.locals_eq {texts : List String} {f f' : Function}
    (h : StampsFunction target place texts f f') : f'.locals = f.locals := by
  rw [Function.locals, Function.locals, h.params, h.body.targets_eq]

/-! ## Definitions -/

mutual

theorem StampsStmt.definitions_eq {texts : List String} {s s' : Stmt} :
    StampsStmt target place texts s s' → s'.definitions = s.definitions
  | .define h => congrArg (· + 1) h.definitionsIn_eq
  | .giveZero | .give _ | .assign _ | .eval _ | .branch _ _ _ | .loop _ _ | .pass => rfl

theorem StampsBlock.definitionsIn_eq {giving : Bool} {texts : List String} {ss ss' : List Stmt} :
    StampsBlock target place giving texts ss ss' → definitionsIn ss' = definitionsIn ss
  | .nil | .last _ _ => rfl
  | .cons h hrest _ => by
    rw [definitionsIn, definitionsIn, h.definitions_eq, hrest.definitionsIn_eq]

end

theorem StampsBlock.bindingsFrom_eq {giving : Bool} {texts : List String} {ss ss' : List Stmt} :
    StampsBlock target place giving texts ss ss' →
      ∀ next : Nat, bindingsFrom next ss' = bindingsFrom next ss
  | .nil, _ | .last _ _, _ => rfl
  | .cons h hrest _, next => by
    cases h with
    | define h => rw [bindingsFrom, bindingsFrom, h.definitionsIn_eq, hrest.bindingsFrom_eq]
    | _ => exact hrest.bindingsFrom_eq next

/-- The functions `fs'` are the functions `fs` with their bodies stamped, with stamps from `texts`. -/
def StampsFunctions (target : String) (place : Option Span → Prop) (texts : List String)
    (fs fs' : List Function) : Prop :=
  fs.Forall₂ (fun f f' => ∃ stamps, stamps ⊆ texts ∧ StampsFunction target place stamps f f') fs'

theorem StampsFunctions.mono {texts more : List String} {fs fs' : List Function}
    (h : StampsFunctions target place texts fs fs') (hmore : texts ⊆ more) :
    StampsFunctions target place more fs fs' :=
  h.imp fun _ _ ⟨stamps, hsub, hf⟩ => ⟨stamps, List.Subset.trans hsub hmore, hf⟩

/-- The stamped function has the number of the function. -/
theorem StampsFunctions.getElem?_eq_some {texts : List String} {fs fs' : List Function}
    (h : StampsFunctions target place texts fs fs') {index : Nat} {f : Function}
    (hf : fs[index]? = some f) :
    ∃ f', fs'[index]? = some f' ∧ ∃ stamps ⊆ texts, StampsFunction target place stamps f f' := by
  obtain ⟨hlt, rfl⟩ := List.getElem?_eq_some_iff.1 hf
  have hlt' : index < fs'.length := h.length_eq ▸ hlt
  exact ⟨fs'[index], List.getElem?_eq_getElem hlt', h.get hlt hlt'⟩

theorem StampsFunctions.getElem?_eq_none {texts : List String} {fs fs' : List Function}
    (h : StampsFunctions target place texts fs fs') {index : Nat} (hf : fs[index]? = none) :
    fs'[index]? = none := by
  rw [List.getElem?_eq_none_iff] at hf ⊢
  exact h.length_eq ▸ hf

mutual

theorem StampsStmt.functions {texts : List String} {s s' : Stmt} (scope : Scope) :
    StampsStmt target place texts s s' → ∀ next : Nat,
      StampsFunctions target place texts (s.functions scope next) (s'.functions scope next)
  | .define h, next => by
    rw [Stmt.functions, Stmt.functions, h.bindingsFrom_eq]
    exact .cons ⟨_, List.Subset.refl _, rfl, rfl, rfl, h⟩ (h.functions _ (next + 1))
  | .giveZero, _ | .give _, _ | .assign _, _ | .eval _, _ | .branch _ _ _, _ | .loop _ _, _
  | .pass, _ => .nil

theorem StampsBlock.functions {giving : Bool} {texts : List String} {ss ss' : List Stmt}
    (scope : Scope) : StampsBlock target place giving texts ss ss' → ∀ next : Nat,
      StampsFunctions target place texts (functionsIn scope next ss) (functionsIn scope next ss')
  | .nil, _ | .last _ _, _ => .nil
  | .cons h hrest _, next => by
    rw [functionsIn, functionsIn, h.definitions_eq]
    exact List.rel_append ((h.functions scope next).mono (List.subset_append_left ..))
      ((hrest.functions scope _).mono (List.subset_append_right ..))

end

/-- The functions of a stamped program. -/
theorem StampsBlock.functions_program {giving : Bool} {texts : List String} {p p' : Program}
    (h : StampsBlock target place giving texts p p') :
    p'.scope = p.scope ∧ StampsFunctions target place texts p.functions p'.functions := by
  have hscope : p'.scope = p.scope := congrArg (fun b => [b]) (h.bindingsFrom_eq 0)
  refine ⟨hscope, ?_⟩
  rw [Program.functions, Program.functions, hscope]
  exact h.functions p.scope 0

mutual

/-- Definitions are well placed in a stamped program exactly where they are in the program. -/
theorem StampsStmt.checkDefinitions_eq {texts : List String} {s s' : Stmt} (allowed : Bool)
    (known : List String) : StampsStmt target place texts s s' →
      s'.checkDefinitions allowed known = s.checkDefinitions allowed known
  | .define h => by
    rw [Stmt.checkDefinitions, Stmt.checkDefinitions, h.isEmpty_eq, h.checkDefinitionsIn_eq]
  | .giveZero | .give _ | .assign _ | .eval _ | .pass => rfl
  | .branch _ hbody horelse => by
    rw [Stmt.checkDefinitions, Stmt.checkDefinitions, hbody.checkDefinitionsIn_eq,
      horelse.checkDefinitionsIn_eq]
  | .loop _ hbody => hbody.checkDefinitionsIn_eq false []

theorem StampsBlock.checkDefinitionsIn_eq {giving : Bool} {texts : List String}
    {ss ss' : List Stmt} (allowed : Bool) (known : List String) :
    StampsBlock target place giving texts ss ss' →
      checkDefinitionsIn allowed known ss' = checkDefinitionsIn allowed known ss
  | .nil | .last _ _ => rfl
  | .cons h hrest _ => by
    unfold checkDefinitionsIn
    rw [h.checkDefinitions_eq]
    split
    · rfl
    · cases h <;> exact hrest.checkDefinitionsIn_eq ..

end

end Same

/-! ## Names that no function has -/

/-- Whether a node is a definition of the name `id`. -/
def Node.defines (id : String) : Node → Bool
  | stmt (.define _ name _ _) => name == id
  | _ => false

section Undefined

variable {id : String}

theorem lookup_bindingsFrom_eq_none : ∀ {block : List Stmt} {next : Nat},
    (∀ n ∈ nodesIn block, n.defines id = false) → (bindingsFrom next block).lookup id = none
  | [], _, _ => rfl
  | s :: ss, next, h => by
    rw [nodesIn, List.forall_mem_append] at h
    cases s with
    | define span name params body =>
      have hname : (name == id) = false := h.1 _ (List.mem_cons_self ..)
      rw [bindingsFrom, List.lookup_cons, lookup_bindingsFrom_eq_none h.2,
        show (id == name) = false from beq_eq_false_iff_ne.2 (beq_eq_false_iff_ne.1 hname).symm]
    | _ =>
      show (bindingsFrom next ss).lookup id = none
      exact lookup_bindingsFrom_eq_none h.2

theorem Scope.resolve?_cons_eq_none {scope : Scope} {block : List Stmt} {next : Nat}
    (h : ∀ n ∈ nodesIn block, n.defines id = false) (hscope : scope.resolve? id = none) :
    Scope.resolve? (bindingsFrom next block :: scope) id = none := by
  rw [Scope.resolve?, List.findSome?_cons, lookup_bindingsFrom_eq_none h]
  exact hscope

mutual

theorem Stmt.resolve?_functions {scope : Scope} : ∀ {s : Stmt} {next : Nat},
    (∀ n ∈ s.nodes, n.defines id = false) → scope.resolve? id = none →
      ∀ f ∈ s.functions scope next, f.scope.resolve? id = none
  | .define _ _ _ body, next, h, hscope => by
    simp only [Stmt.nodes, List.forall_mem_cons, List.forall_mem_append] at h
    have hinner : Scope.resolve? (bindingsFrom (next + 1) body :: scope) id = none :=
      Scope.resolve?_cons_eq_none h.2.2 hscope
    rw [Stmt.functions, List.forall_mem_cons]
    exact ⟨hinner, resolve?_functionsIn h.2.2 hinner⟩
  | .give .., _, _, _ | .assign .., _, _, _ | .eval .., _, _, _ | .branch .., _, _, _
  | .loop .., _, _, _ | .pass .., _, _, _ => nofun

theorem resolve?_functionsIn {scope : Scope} : ∀ {block : List Stmt} {next : Nat},
    (∀ n ∈ nodesIn block, n.defines id = false) → scope.resolve? id = none →
      ∀ f ∈ functionsIn scope next block, f.scope.resolve? id = none
  | [], _, _, _ => nofun
  | s :: ss, next, h, hscope => by
    rw [nodesIn, List.forall_mem_append] at h
    rw [functionsIn, List.forall_mem_append]
    exact ⟨Stmt.resolve?_functions h.1 hscope, resolve?_functionsIn h.2 hscope⟩

end

/-- A name that no function has means no function anywhere in a program. -/
theorem Program.resolve?_eq_none {p : Program} (h : ∀ n ∈ p.nodes, n.defines id = false) :
    p.scope.resolve? id = none ∧ ∀ f ∈ p.functions, f.scope.resolve? id = none := by
  have hscope : p.scope.resolve? id = none := Scope.resolve?_cons_eq_none h rfl
  exact ⟨hscope, resolve?_functionsIn h hscope⟩

end Undefined

end Stampline
