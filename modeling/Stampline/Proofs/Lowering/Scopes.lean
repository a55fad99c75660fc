import Mathlib.Data.List.Forall2
import Stampline.Evaluation.Definition
import Stampline.Lowering.Scope

/-!
# Scopes and the blocks they are made of

A call is evaluated in the blocks around it, and code for it is generated from numbers of functions.
Both find the same definition: `Stands` relates a scope to the blocks that it was made of, and goes
on to hold for the body of every function that is found. Functions are numbered as the definitions that
they come from stand in the program.
-/

namespace Stampline

mutual

theorem Stmt.length_functions (scope : Scope) (next : Nat) :
    ∀ s : Stmt, (s.functions scope next).length = s.definitions
  | .define _ _ _ body => by
    simp [Stmt.functions, Stmt.definitions, length_functionsIn]
  | .give .. | .assign .. | .eval .. | .branch .. | .loop .. | .pass .. => by
    simp [Stmt.functions, Stmt.definitions]

theorem length_functionsIn (scope : Scope) (next : Nat) :
    ∀ block : List Stmt, (functionsIn scope next block).length = definitionsIn block
  | [] => rfl
  | s :: ss => by
    simp [functionsIn, definitionsIn, Stmt.length_functions, length_functionsIn]

end

/-- The elements `part` of a list are those from the index `next` on. -/
def Sits {α : Type} (all part : List α) (next : Nat) : Prop :=
  ∀ i x, part[i]? = some x → all[next + i]? = some x

theorem Sits.left {α : Type} {all a b : List α} {next : Nat} (h : Sits all (a ++ b) next) :
    Sits all a next := fun i x hx =>
  h i x (by rw [List.getElem?_append_left (List.getElem?_eq_some_iff.1 hx).1, hx])

theorem Sits.right {α : Type} {all a b : List α} {next : Nat} (h : Sits all (a ++ b) next) :
    Sits all b (next + a.length) := fun i x hx => by
  rw [Nat.add_assoc]
  exact h _ x (by rw [List.getElem?_append_right (by omega), Nat.add_sub_cancel_left, hx])

theorem Sits.all {α : Type} (xs : List α) : Sits xs xs 0 := fun i x hx => by rwa [Nat.zero_add]

/-- The names of functions mean in `scope` what they mean in the blocks `around`. -/
inductive Stands (functions : List Function) : Scope → List (List Stmt) → Prop where
  | nil : Stands functions [] []
  | cons {scope around block next} (h : Stands functions scope around)
      (hsits : Sits functions (functionsIn (bindingsFrom next block :: scope) next block) next) :
      Stands functions (bindingsFrom next block :: scope) (block :: around)

theorem Program.stands (p : Program) : Stands p.functions p.scope [p] :=
  .cons .nil (.all _)

/-- A name that a block defines is bound to the number of the function that the block defines by
it. -/
theorem lookup_bindingsFrom {functions : List Function} {scope : Scope} (id : String) :
    ∀ {block : List Stmt} {next : Nat}, Sits functions (functionsIn scope next block) next →
      match (bindingsFrom next block).lookup id with
      | none => definedIn id block = none
      | some index => ∃ f, functions[index]? = some f ∧
          definedIn id block = some (f.params.map (·.name), f.body) ∧
          f.scope = bindingsFrom (index + 1) f.body :: scope ∧
          Sits functions (functionsIn f.scope (index + 1) f.body) (index + 1)
  | [], next, h => by simp [bindingsFrom, definedIn]
  | .define _ name params body :: ss, next, h => by
    simp only [bindingsFrom, definedIn, List.lookup_cons]
    by_cases hname : name = id
    · subst hname
      simp only [beq_self_eq_true, if_true]
      refine ⟨_, h 0 _ rfl, rfl, rfl, ?_⟩
      exact Sits.right (a := [_]) (h.left (a := Stmt.functions scope next _))
    · simp only [beq_eq_false_iff_ne.2 (Ne.symm hname), hname, if_false]
      have hss := Sits.right (a := Stmt.functions scope next (.define _ name params body)) h
      rw [Stmt.length_functions] at hss
      exact lookup_bindingsFrom id hss
  | .give .. :: ss, next, h | .assign .. :: ss, next, h | .eval .. :: ss, next, h
  | .branch .. :: ss, next, h | .loop .. :: ss, next, h | .pass .. :: ss, next, h => by
    simp only [functionsIn, Stmt.functions, Stmt.definitions, List.nil_append, Nat.add_zero] at h
    simpa only [bindingsFrom, definedIn] using lookup_bindingsFrom id h

/-- `Finds functions f d`: the function `f` of the program is the definition `d`. -/
structure Finds (functions : List Function) (f : Function) (d : Definition) : Prop where
  params : d.params = f.params.map (·.name)
  body : d.body = f.body
  stands : Stands functions f.scope d.around

/-- A name of a function is resolved to the definition that it refers to. -/
theorem Stands.resolve? {functions : List Function} {scope : Scope} {around : List (List Stmt)}
    (h : Stands functions scope around) (id : String) :
    match scope.resolve? id with
    | none => definition? id around = none
    | some index => ∃ f d, functions[index]? = some f ∧ definition? id around = some d ∧
        Finds functions f d := by
  induction h with
  | nil => rfl
  | @cons scope around block next h hsits ih =>
    have hlookup := lookup_bindingsFrom id hsits
    rw [Scope.resolve?, List.findSome?_cons]
    cases hl : (bindingsFrom next block).lookup id with
    | none =>
      rw [hl] at hlookup
      simpa only [definition?, hlookup, Scope.resolve?] using ih
    | some index =>
      rw [hl] at hlookup
      obtain ⟨f, hf, hdefined, hscope, hbody⟩ := hlookup
      refine ⟨f, ⟨_, _, f.body :: block :: around⟩, hf, by simp [definition?, hdefined], rfl, rfl,
        ?_⟩
      rw [hscope] at hbody ⊢
      exact .cons (.cons h hsits) hbody

theorem Stands.definition?_eq_none {functions : List Function} {scope : Scope}
    {around : List (List Stmt)} (h : Stands functions scope around) {id : String}
    (hid : scope.resolve? id = none) : definition? id around = none := by
  have := h.resolve? id
  rwa [hid] at this

theorem Stands.definition?_eq_some {functions : List Function} {scope : Scope}
    {around : List (List Stmt)} (h : Stands functions scope around) {id : String} {index : Nat}
    {f : Function} (hid : scope.resolve? id = some index) (hf : functions[index]? = some f) :
    ∃ d, definition? id around = some d ∧ Finds functions f d := by
  have := h.resolve? id
  rw [hid] at this
  obtain ⟨g, d, hg, hd, hfinds⟩ := this
  obtain rfl : f = g := Option.some.inj (hf.symm.trans hg)
  exact ⟨d, hd, hfinds⟩

/-! ## Parameters -/

theorem nodup_of_checkParams {function : String} : ∀ {before : List String} {params : List Param},
    checkParams function before params = .ok () →
      (params.map (·.name)).Nodup ∧ ∀ p ∈ params, p.name ∉ before
  | before, [], h => by simp
  | before, p :: ps, h => by
    unfold checkParams at h
    split at h
    · simp at h
    · rename_i hp
      obtain ⟨hnodup, hbefore⟩ := nodup_of_checkParams h
      simp only [List.contains_eq_mem, decide_eq_true_eq, List.mem_cons, not_or] at hp hbefore
      refine ⟨?_, ?_⟩
      · rw [List.map_cons, List.nodup_cons]
        refine ⟨fun hmem => ?_, hnodup⟩
        obtain ⟨q, hq, hname⟩ := List.mem_map.1 hmem
        exact (hbefore q hq).1 hname
      · rintro q (_ | ⟨_, hq⟩)
        · exact hp
        · exact (hbefore q hq).2

mutual

theorem Stmt.nodup_params_of_check {allowed : Bool} {known : List String} {scope : Scope}
    {next : Nat} : ∀ {s : Stmt}, s.checkDefinitions allowed known = .ok () →
      ∀ f ∈ s.functions scope next, (f.params.map (·.name)).Nodup
  | .define span name params body, h, f, hf => by
    simp only [Stmt.checkDefinitions] at h
    split at h
    · simp at h
    split at h
    · simp at h
    split at h
    · simp at h
    split at h
    · simp at h
    rename_i hparams
    simp only [Stmt.functions, List.mem_cons] at hf
    rcases hf with rfl | hf
    · exact (nodup_of_checkParams hparams).1
    · exact nodup_params_of_check h f hf
  | .give .., h, f, hf | .assign .., h, f, hf | .eval .., h, f, hf | .branch .., h, f, hf
  | .loop .., h, f, hf | .pass .., h, f, hf => by simp [Stmt.functions] at hf

theorem nodup_params_of_check {allowed : Bool} {known : List String} {scope : Scope}
    {next : Nat} : ∀ {block : List Stmt}, checkDefinitionsIn allowed known block = .ok () →
      ∀ f ∈ functionsIn scope next block, (f.params.map (·.name)).Nodup
  | [], h, f, hf => by simp [functionsIn] at hf
  | s :: ss, h, f, hf => by
    unfold checkDefinitionsIn at h
    split at h
    · simp at h
    rename_i hs
    rw [functionsIn, List.mem_append] at hf
    rcases hf with hf | hf
    · exact Stmt.nodup_params_of_check hs f hf
    · exact nodup_params_of_check h f hf

end

/-! ## Definitions and their numbers -/

mutual

/-- The definitions of a statement that stands in the blocks `around`, in the order in which they
begin. -/
def Stmt.defined (around : List (List Stmt)) : Stmt → List Definition
  | .define _ _ params body =>
    ⟨params.map (·.name), body, body :: around⟩ :: definedBy (body :: around) body
  | _ => []

/-- The definitions of a block that stands in the blocks `around`. -/
def definedBy (around : List (List Stmt)) : List Stmt → List Definition
  | [] => []
  | s :: ss => s.defined around ++ definedBy around ss

end

/-- The definitions of a program in the order in which they begin. -/
def Program.defined (p : Program) : List Definition := definedBy [p] p

mutual

theorem Stmt.length_defined (around : List (List Stmt)) :
    ∀ s : Stmt, (s.defined around).length = s.definitions
  | .define _ _ _ body => by simp [Stmt.defined, Stmt.definitions, length_definedBy]
  | .give .. | .assign .. | .eval .. | .branch .. | .loop .. | .pass .. => rfl

theorem length_definedBy (around : List (List Stmt)) :
    ∀ block : List Stmt, (definedBy around block).length = definitionsIn block
  | [] => rfl
  | s :: ss => by simp [definedBy, definitionsIn, Stmt.length_defined, length_definedBy]

end

/-- The numbers of functions in `scope` are those of the definitions in the blocks `around`. -/
inductive Numbered (all : List Definition) : Scope → List (List Stmt) → Prop where
  | nil : Numbered all [] []
  | cons {scope around block next} (h : Numbered all scope around)
      (hsits : Sits all (definedBy (block :: around) block) next) :
      Numbered all (bindingsFrom next block :: scope) (block :: around)

theorem map_lookup_bindingsFrom {all : List Definition} {around : List (List Stmt)} (id : String) :
    ∀ (block : List Stmt) {next : Nat}, Sits all (definedBy around block) next →
      ((bindingsFrom next block).lookup id).map (all[·]?) =
        (definedIn id block).map fun d => some ⟨d.1, d.2, d.2 :: around⟩
  | [], next, h => rfl
  | .define _ name params body :: ss, next, h => by
    simp only [bindingsFrom, definedIn, List.lookup_cons]
    by_cases hname : name = id
    · subst hname
      simp only [beq_self_eq_true, if_true, Option.map_some]
      exact congrArg some (h 0 _ rfl)
    · simp only [beq_eq_false_iff_ne.2 (Ne.symm hname), hname, if_false]
      have hss := Sits.right (a := Stmt.defined around (.define _ name params body)) h
      rw [Stmt.length_defined] at hss
      exact map_lookup_bindingsFrom id ss hss
  | .give .. :: ss, next, h | .assign .. :: ss, next, h | .eval .. :: ss, next, h
  | .branch .. :: ss, next, h | .loop .. :: ss, next, h | .pass .. :: ss, next, h => by
    simpa only [bindingsFrom, definedIn] using map_lookup_bindingsFrom id ss h

/-- A name of a function is resolved to the number of the definition that it refers to. -/
theorem Numbered.map_resolve? {all : List Definition} {scope : Scope} {around : List (List Stmt)}
    (h : Numbered all scope around) (id : String) :
    (scope.resolve? id).map (all[·]?) = (definition? id around).map some := by
  induction h with
  | nil => rfl
  | @cons scope around block next h hsits ih =>
    have hlookup := map_lookup_bindingsFrom id block hsits
    rw [Scope.resolve?, List.findSome?_cons, definition?]
    cases hl : (bindingsFrom next block).lookup id with
    | none =>
      rw [hl, Option.map_none, eq_comm, Option.map_eq_none_iff] at hlookup
      simpa only [hlookup, Scope.resolve?] using ih
    | some index =>
      rw [hl, Option.map_some] at hlookup
      cases hdefined : definedIn id block with
      | none => simp [hdefined] at hlookup
      | some d =>
        rw [hdefined] at hlookup
        exact hlookup

/-- A function and a definition with the same parameters, body and meaning of names. -/
structure SameDefinition (all : List Definition) (f : Function) (d : Definition) : Prop where
  params : f.params.map (·.name) = d.params
  body : f.body = d.body
  numbered : Numbered all f.scope d.around

mutual

theorem Stmt.forall₂_functions {all : List Definition} {scope : Scope} {around : List (List Stmt)}
    (h : Numbered all scope around) : ∀ (s : Stmt) (next : Nat), Sits all (s.defined around) next →
      List.Forall₂ (SameDefinition all) (s.functions scope next) (s.defined around)
  | .define _ _ params body, next, hsits => by
    have hbody := Sits.right (a := [_]) hsits
    have hnumbered := Numbered.cons h hbody
    exact .cons ⟨rfl, rfl, hnumbered⟩ (forall₂_functionsIn hnumbered body (next + 1) hbody)
  | .give .., _, _ | .assign .., _, _ | .eval .., _, _ | .branch .., _, _ | .loop .., _, _
  | .pass .., _, _ => .nil

theorem forall₂_functionsIn {all : List Definition} {scope : Scope} {around : List (List Stmt)}
    (h : Numbered all scope around) : ∀ (block : List Stmt) (next : Nat),
      Sits all (definedBy around block) next →
        List.Forall₂ (SameDefinition all) (functionsIn scope next block) (definedBy around block)
  | [], _, _ => .nil
  | s :: ss, next, hsits => by
    have hss := Sits.right (a := s.defined around) hsits
    rw [Stmt.length_defined] at hss
    exact List.rel_append (s.forall₂_functions h next hsits.left) (forall₂_functionsIn h ss _ hss)

end

theorem Program.numbered (p : Program) : Numbered p.defined p.scope [p] := .cons .nil (.all _)

/-- The functions of a program are its definitions, in the same order. -/
theorem Program.forall₂_functions (p : Program) :
    List.Forall₂ (SameDefinition p.defined) p.functions p.defined :=
  forall₂_functionsIn p.numbered p 0 (.all _)

theorem Program.exists_defined {p : Program} {f : Function} (hf : f ∈ p.functions) :
    ∃ d ∈ p.defined, SameDefinition p.defined f d := by
  obtain ⟨i, hi, rfl⟩ := List.getElem_of_mem hf
  have hlength := p.forall₂_functions.length_eq
  exact ⟨_, List.getElem_mem (by omega), p.forall₂_functions.get hi (by omega)⟩

theorem Program.length_defined (p : Program) : p.defined.length = p.functions.length :=
  p.forall₂_functions.length_eq.symm

end Stampline
