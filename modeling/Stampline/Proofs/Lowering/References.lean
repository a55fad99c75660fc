import Stampline.Proofs.Lowering.Scopes
import Stampline.Proofs.Lowering.Shape

/-!
# What code calls

Emitted code calls the functions that the names of callees refer to, in the order in which the calls
are evaluated, and apart from these it calls functions of the host alone.
-/

namespace Stampline

namespace Wasm

variable {ι κ : Type}

mutual

/-- The functions that an instruction calls by their index, in the order of the code. -/
def Instr.calls : Instr ι → List Nat
  | .block _ body | .loop _ body | .when _ body => callsOf body
  | .choose _ body orelse => callsOf body ++ callsOf orelse
  | .call func => [func]
  | _ => []

/-- The functions that instructions call by their indices, in the order of the code. -/
def callsOf : List (Instr ι) → List Nat
  | [] => []
  | i :: is => i.calls ++ callsOf is

end

@[simp] theorem callsOf_append : ∀ is js : List (Instr ι),
    callsOf (is ++ js) = callsOf is ++ callsOf js
  | [], js => rfl
  | i :: is, js => by
    rw [List.cons_append, callsOf, callsOf, callsOf_append is js, List.append_assoc]

/-- Structured code calls the same functions whatever its constants are. -/
theorem Structured.callsOf_map {slots funcs : Nat} {is : List (Instr ι)} (f : ι → κ)
    (his : Structured slots funcs is) : callsOf (mapInstrs f is) = callsOf is := by
  induction his with
  | nil => rfl
  | @simple i is hi _ ih =>
    rw [mapInstrs, callsOf, callsOf, ih]
    cases i with
    | block | loop | when | choose => exact hi.elim
    | _ => rfl
  | when _ _ ihbody ih => simp only [mapInstrs, Instr.map, callsOf, Instr.calls, ihbody, ih]
  | choose _ _ _ ihbody ihorelse ih =>
    simp only [mapInstrs, Instr.map, callsOf, Instr.calls, ihbody, ihorelse, ih]
  | loop _ _ _ ihtest ihbody ih =>
    simp only [mapInstrs, Instr.map, mapInstrs_append, callsOf, Instr.calls, callsOf_append, ihtest,
      ihbody, ih]

end Wasm

open Wasm (callsOf Instr callsOf_append)

/-! ## Names of callees -/

mutual

/-- The names that an expression calls, in the order of the calls. -/
def Expr.callees : Expr → List String
  | .call _ (.name _ id) args keywords => calleesOf args ++ calleesBy keywords ++ [id]
  | .binary _ _ left right | .compare _ _ left right => left.callees ++ right.callees
  | .negate _ operand => operand.callees
  | _ => []

/-- The names that expressions call. -/
def calleesOf : List Expr → List String
  | [] => []
  | e :: es => e.callees ++ calleesOf es

/-- The names that keyword arguments call. -/
def calleesBy : List Keyword → List String
  | [] => []
  | .mk _ _ value :: ks => value.callees ++ calleesBy ks

end

mutual

/-- The names that a statement calls, definitions inside it aside. -/
def Stmt.callees : Stmt → List String
  | .give _ (some e) | .assign _ _ e | .eval _ e => e.callees
  | .branch _ test body orelse => test.callees ++ calleesIn body ++ calleesIn orelse
  | .loop _ test body => test.callees ++ calleesIn body
  | _ => []

/-- The names that a block calls, definitions inside it aside. -/
def calleesIn : List Stmt → List String
  | [] => []
  | s :: ss => s.callees ++ calleesIn ss

end

theorem calleesBy_eq (keywords : List Keyword) :
    calleesBy keywords = calleesOf (keywords.map Keyword.value) := by
  induction keywords with
  | nil => rfl
  | cons k ks ih =>
    obtain ⟨span, name, value⟩ := k
    rw [calleesBy, List.map_cons, calleesOf, ih]
    rfl

/-! ## Calls of emitted code -/

/-- The number of a function of the program, given its index among all functions. -/
def definedNumber? (func : Nat) : Option Nat :=
  if HostFunction.count ≤ func then some (func - HostFunction.count) else none

/-- The functions of the program that code calls, by their numbers. -/
def definedCalls {ι : Type} (is : List (Instr ι)) : List Nat :=
  (callsOf is).filterMap definedNumber?

@[simp] theorem definedCalls_append {ι : Type} (is js : List (Instr ι)) :
    definedCalls (is ++ js) = definedCalls is ++ definedCalls js := by
  simp [definedCalls]

@[simp] theorem definedCalls_nil {ι : Type} : definedCalls ([] : List (Instr ι)) = [] := rfl

section Cons

variable {ι : Type} (is : List (Instr ι))

@[simp] theorem definedCalls_const64 (value : Int64) :
    definedCalls (.const64 value :: is) = definedCalls is := rfl

@[simp] theorem definedCalls_localGet (slot : Nat) :
    definedCalls (.localGet slot :: is) = definedCalls is := rfl

@[simp] theorem definedCalls_localSet (slot : Nat) :
    definedCalls (.localSet slot :: is) = definedCalls is := rfl

@[simp] theorem definedCalls_numeric (op : Wasm.Numeric) :
    definedCalls (.numeric op :: is) = definedCalls is := rfl

@[simp] theorem definedCalls_binary (op : BinaryOp) (is : List Code) :
    definedCalls (op.code :: is) = definedCalls is := by
  cases op <;> rfl

@[simp] theorem definedCalls_compare (op : Comparison) (is : List Code) :
    definedCalls (op.code :: is) = definedCalls is := by
  cases op <;> rfl

@[simp] theorem definedCalls_drop : definedCalls (.drop :: is) = definedCalls is := rfl

@[simp] theorem definedCalls_ret : definedCalls (.ret :: is) = definedCalls is := rfl

@[simp] theorem definedCalls_br (depth : Nat) :
    definedCalls (.br depth :: is) = definedCalls is := rfl

@[simp] theorem definedCalls_brIf (depth : Nat) :
    definedCalls (.brIf depth :: is) = definedCalls is := rfl

@[simp] theorem definedCalls_when (body : List (Instr ι)) :
    definedCalls (.when .none body :: is) = definedCalls body ++ definedCalls is := by
  simp [definedCalls, callsOf, Instr.calls]

@[simp] theorem definedCalls_choose (body orelse : List (Instr ι)) :
    definedCalls (.choose .none body orelse :: is) =
      definedCalls body ++ definedCalls orelse ++ definedCalls is := by
  simp [definedCalls, callsOf, Instr.calls]

@[simp] theorem definedCalls_loop (body : List (Instr ι)) :
    definedCalls (.block .none [.loop .none body] :: is) =
      definedCalls body ++ definedCalls is := by
  simp [definedCalls, callsOf, Instr.calls]

end Cons

@[simp] theorem definedCalls_host (f : HostFunction) :
    definedCalls ([.call f.index] : List Code) = [] := by
  cases f <;> rfl

@[simp] theorem definedCalls_function (index : Nat) :
    definedCalls ([.call (HostFunction.count + index)] : List Code) = [index] := by
  simp [definedCalls, callsOf, Instr.calls, definedNumber?]

@[simp] theorem definedCalls_pushText (text : String) : definedCalls (pushText text) = [] := rfl

@[simp] theorem definedCalls_printText (text : String) : definedCalls (printText text) = [] := by
  unfold printText
  split
  · rfl
  · simp

theorem definedCalls_flatten : ∀ {parts : List (List Code)},
    (∀ part ∈ parts, definedCalls part = []) → definedCalls parts.flatten = []
  | [], _ => rfl
  | part :: parts, h => by
    rw [List.flatten_cons, definedCalls_append, h part (by simp),
      definedCalls_flatten fun q hq => h q (by simp [hq]), List.append_nil]

@[simp] theorem definedCalls_printCode (separator terminator : String) (places : List Printed) :
    definedCalls (printCode separator terminator places) = [] := by
  rw [printCode, definedCalls_append, definedCalls_printText, List.append_nil]
  refine definedCalls_flatten fun part hpart => ?_
  rcases mem_intersperse hpart with hpart | rfl
  · obtain ⟨place, -, rfl⟩ := List.mem_map.1 hpart
    cases place with
    | text value => exact definedCalls_printText value
    | slot index =>
      rw [Printed.code, definedCalls_localGet, definedCalls_host]
  · exact definedCalls_printText separator

@[simp] theorem definedCalls_pushBound (params : Nat) (positions temps : List Nat) :
    definedCalls (pushBound params positions temps) = [] := by
  have : ∀ ps : List Nat, definedCalls
      (ps.map fun p => (.localGet (((positions.zip temps).lookup p).getD 0) : Code)) = [] := by
    intro ps
    induction ps with
    | nil => rfl
    | cons p ps ih =>
      rw [List.map_cons, definedCalls_localGet, ih]
  exact this _

/-- The options of a call of the printing function call nothing. -/
theorem calleesBy_of_printOptions : ∀ {keywords : List Keyword} {separator terminator : String}
    {options : String × String}, printOptions keywords separator terminator = .ok options →
      calleesBy keywords = []
  | [], _, _, _, _ => rfl
  | .mk _ name (.text _ value) :: ks, separator, terminator, options, h => by
    show [] ++ calleesBy ks = []
    unfold printOptions at h
    split at h
    · exact calleesBy_of_printOptions h
    · split at h
      · exact calleesBy_of_printOptions h
      · simp at h
  | .mk _ _ (.number ..) :: _, _, _, _, h | .mk _ _ (.name ..) :: _, _, _, _, h
  | .mk _ _ (.member ..) :: _, _, _, _, h | .mk _ _ (.call ..) :: _, _, _, _, h
  | .mk _ _ (.binary ..) :: _, _, _, _, h | .mk _ _ (.negate ..) :: _, _, _, _, h
  | .mk _ _ (.compare ..) :: _, _, _, _, h => by simp [printOptions] at h

variable {site : Site}

mutual

theorem ExprCode.calls {e : Expr} {n m : Nat} {code : List Code} : ExprCode site e n code m →
    definedCalls code = e.callees.filterMap site.scope.resolve?
  | .number | .local _ => rfl
  | .global _ _ => by simp [Expr.callees]
  | .call hfun _ _ hargs => by simp [hargs.calls, Expr.callees, calleesBy, hfun]
  | .callBound hfun _ _ _ hargs hvalues => by
    simp [hargs.calls, hvalues.calls, Expr.callees, calleesBy_eq, hfun]
  | .print hfun hoptions hargs => by
    simp [hargs.calls, Expr.callees, calleesBy_of_printOptions hoptions, hfun]
  | .binary hleft hright | .compare hleft hright => by
    simp [hleft.calls, hright.calls, Expr.callees]
  | .negate hoperand => by simp [hoperand.calls, Expr.callees]

theorem ArgsCode.calls {es : List Expr} {n m : Nat} {code : List Code} :
    ArgsCode site es n code m →
      definedCalls code = (calleesOf es).filterMap site.scope.resolve?
  | .nil => rfl
  | .cons hhead htail => by simp [hhead.calls, htail.calls, calleesOf]

theorem StoredCode.calls {es : List Expr} {n m : Nat} {code : List Code} {temps : List Nat} :
    StoredCode site es n code temps m →
      definedCalls code = (calleesOf es).filterMap site.scope.resolve?
  | .nil => rfl
  | .cons hhead htail => by simp [hhead.calls, htail.calls, calleesOf]

theorem PrintedCode.calls {es : List Expr} {n m : Nat} {code : List Code} {places : List Printed} :
    PrintedCode site es n code places m →
      definedCalls code = (calleesOf es).filterMap site.scope.resolve?
  | .nil => rfl
  | .text htail => by simp [htail.calls, calleesOf, Expr.callees]
  | .value _ hhead htail => by simp [hhead.calls, htail.calls, calleesOf]

end

mutual

theorem StmtCode.calls {s : Stmt} {n m : Nat} {code : List Code} : StmtCode site s n code m →
    definedCalls code = s.callees.filterMap site.scope.resolve?
  | .define | .pass => rfl
  | .giveZero _ => rfl
  | .give _ hvalue | .assignLocal _ hvalue | .assignGlobal _ hvalue | .eval hvalue => by
    simp [hvalue.calls, Stmt.callees]
  | .when htest _ hbody => by
    simp [htest.calls, hbody.calls, Stmt.callees, calleesIn]
  | .choose htest _ hbody _ horelse => by
    simp [htest.calls, hbody.calls, horelse.calls, Stmt.callees]
  | .loop htest _ hbody => by
    simp [htest.calls, hbody.calls, Stmt.callees]

theorem BlockCode.calls {ss : List Stmt} {n m : Nat} {code : List Code} :
    BlockCode site ss n code m →
      definedCalls code = (calleesIn ss).filterMap site.scope.resolve?
  | .nil => rfl
  | .cons hhead htail => by simp [hhead.calls, htail.calls, calleesIn]

end

end Stampline
