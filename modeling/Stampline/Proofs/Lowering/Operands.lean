import Mathlib.Data.List.Perm.Basic
import Stampline.Proofs.Lowering.Emission
import Stampline.Proofs.Lowering.References

/-!
# The texts that calls are given

Some functions of the host take a text, given by two constants that are pushed before the call. Which
constants belong to which call is told by the code alone: a call takes the two that were pushed last
and were not taken by a call in between, as the one that binds a global has the code of the value
between its constants and itself. A tree has a use of a text for every such call, in the same order.
-/

namespace Stampline

open Wasm (Instr mapInstrs mapInstrs_append constantsOf constantsOf_append)

/-! ## Calls in code -/

/-- The functions of the host that take a text. -/
def HostFunction.takesText : HostFunction → Bool
  | printInt => false
  | printText | readGlobal | writeGlobal => true

/-- The function of the host that takes a text, if it is one that an index stands for. -/
def textFunction? (func : Nat) : Option HostFunction :=
  HostFunction.all.find? fun f => f.takesText && f.index == func

/-- A call of a function of the host that takes a text. -/
structure TextCall (ι : Type) where
  /-- The function. -/
  func : HostFunction
  /-- The constants that it takes, the one that was pushed last first. -/
  operands : List ι

/-- The call with every constant replaced. -/
def TextCall.map {ι κ : Type} (f : ι → κ) (call : TextCall ι) : TextCall κ :=
  ⟨call.func, call.operands.map f⟩

section Calls

variable {ι κ : Type}

mutual

/-- The calls that take a text in an instruction, and the constants that are left to further calls,
given those that are there before. A body is given none. -/
def Wasm.Instr.textCalls (pending : List ι) : Instr ι → List (TextCall ι) × List ι
  | .const32 value => ([], value :: pending)
  | .call func =>
    match textFunction? func with
    | some f => ([⟨f, pending.take 2⟩], pending.drop 2)
    | none => ([], pending)
  | .block _ body | .loop _ body | .when _ body =>
    let inner := textCallsOf [] body
    (inner.1, inner.2 ++ pending)
  | .choose _ body orelse =>
    let first := textCallsOf [] body
    let second := textCallsOf [] orelse
    (first.1 ++ second.1, second.2 ++ first.2 ++ pending)
  | _ => ([], pending)

/-- The same for instructions in turn. -/
def textCallsOf (pending : List ι) : List (Instr ι) → List (TextCall ι) × List ι
  | [] => ([], pending)
  | i :: is =>
    let first := i.textCalls pending
    let rest := textCallsOf first.2 is
    (first.1 ++ rest.1, rest.2)

end

theorem textCallsOf_append (pending : List ι) (is js : List (Instr ι)) :
    textCallsOf pending (is ++ js) =
      ((textCallsOf pending is).1 ++ (textCallsOf (textCallsOf pending is).2 js).1,
        (textCallsOf (textCallsOf pending is).2 js).2) := by
  induction is generalizing pending with
  | nil => rfl
  | cons i is ih =>
    rw [List.cons_append, textCallsOf, textCallsOf, ih]
    simp only [List.append_assoc]

mutual

theorem Wasm.Instr.textCalls_map (f : ι → κ) (pending : List ι) (i : Instr ι) :
    (i.map f).textCalls (pending.map f) =
      ((i.textCalls pending).1.map (TextCall.map f), (i.textCalls pending).2.map f) := by
  cases i with
  | block type body | loop type body | when type body =>
    have hbody := textCallsOf_map f [] body
    simp only [Wasm.Instr.map, Wasm.Instr.textCalls, List.map_nil, List.map_append] at hbody ⊢
    rw [hbody]
  | choose type body orelse =>
    have hbody := textCallsOf_map f [] body
    have horelse := textCallsOf_map f [] orelse
    simp only [Wasm.Instr.map, Wasm.Instr.textCalls, List.map_nil, List.map_append] at hbody horelse ⊢
    rw [hbody, horelse]
  | call func =>
    simp only [Wasm.Instr.map, Wasm.Instr.textCalls]
    cases textFunction? func with
    | none => rfl
    | some g => simp [TextCall.map]
  | _ => rfl

theorem textCallsOf_map (f : ι → κ) (pending : List ι) (is : List (Instr ι)) :
    textCallsOf (pending.map f) (mapInstrs f is) =
      ((textCallsOf pending is).1.map (TextCall.map f), (textCallsOf pending is).2.map f) := by
  cases is with
  | nil => rfl
  | cons i is =>
    have hfirst := i.textCalls_map f pending
    have hrest := textCallsOf_map f (i.textCalls pending).2 is
    simp only [mapInstrs, textCallsOf, List.map_append]
    rw [hfirst, hrest]

end

mutual

/-- Every constant is taken by one call or left to further ones. -/
theorem Wasm.Instr.perm_textCalls (pending : List ι) (i : Instr ι) :
    ((i.textCalls pending).1.flatMap (·.operands) ++ (i.textCalls pending).2).Perm
      (pending ++ i.constants) := by
  cases i with
  | block type body | loop type body | when type body =>
    have hbody := perm_textCallsOf [] body
    simp only [Wasm.Instr.textCalls, Wasm.Instr.constants, ← List.append_assoc]
    exact (hbody.append_right pending).trans List.perm_append_comm
  | choose type body orelse =>
    have hbody := perm_textCallsOf [] body
    have horelse := perm_textCallsOf [] orelse
    simp only [Wasm.Instr.textCalls, Wasm.Instr.constants, List.flatMap_append, List.append_assoc]
    -- What is left of the first body goes before what the second one takes.
    have hsecond := horelse.append_right ((textCallsOf [] body).2 ++ pending)
    have hfirst := hbody.append_right (constantsOf orelse ++ pending)
    simp only [List.append_assoc, List.nil_append] at hsecond hfirst
    refine (hsecond.append_left _).trans ?_
    refine ((List.perm_append_comm_assoc _ _ _).append_left _).trans (hfirst.trans ?_)
    rw [← List.append_assoc]
    exact List.perm_append_comm
  | const32 value =>
    simp only [Wasm.Instr.textCalls, Wasm.Instr.constants]
    show ([value] ++ pending).Perm (pending ++ [value])
    exact List.perm_append_comm
  | call func =>
    simp only [Wasm.Instr.textCalls, Wasm.Instr.constants, List.append_nil]
    cases textFunction? func with
    | none => exact .refl _
    | some f => simp
  | _ => simp [Wasm.Instr.textCalls, Wasm.Instr.constants]

theorem perm_textCallsOf (pending : List ι) (is : List (Instr ι)) :
    ((textCallsOf pending is).1.flatMap (·.operands) ++ (textCallsOf pending is).2).Perm
      (pending ++ constantsOf is) := by
  cases is with
  | nil => simp [textCallsOf, constantsOf]
  | cons i is =>
    have hfirst := (i.perm_textCalls pending).append_right (constantsOf is)
    have hrest := (perm_textCallsOf (i.textCalls pending).2 is).append_left
      ((i.textCalls pending).1.flatMap (·.operands))
    simp only [textCallsOf, constantsOf, List.flatMap_append, List.append_assoc] at hfirst hrest ⊢
    exact hrest.trans hfirst

end

end Calls

end Stampline
