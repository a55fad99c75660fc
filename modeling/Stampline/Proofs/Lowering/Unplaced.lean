import Stampline.Proofs.Lowering.Parts
import Stampline.Proofs.Syntax.Places

/-!
# Lowering and places

Where a program stands makes a difference to the place of a complaint and to nothing else: two
programs that are the same up to where they stand are lowered to the same module.
-/

namespace Stampline

open Wasm (Func Module)

/-- A complaint without its place. -/
def Complaint.erase (c : Complaint) : Complaint := { c with span := none }

/-- A function without its places. -/
def Function.erase (f : Function) : Function :=
  { f with params := f.params.map Param.erase, body := eraseBlock f.body }

/-- What code is emitted for, without places. -/
def Site.erase (site : Site) : Site := { site with functions := site.functions.map Function.erase }

@[simp] theorem Site.scope_erase (site : Site) : site.erase.scope = site.scope := rfl

@[simp] theorem Site.locals_erase (site : Site) : site.erase.locals = site.locals := rfl

@[simp] theorem Site.inFunction_erase (site : Site) : site.erase.inFunction = site.inFunction := rfl

/-- What a callee stands for, without places. -/
def Target.erase : Target → Target
  | .function index f => .function index f.erase
  | .print => .print

/-! ## Code generation whose complaints have no places -/

theorem mapError_ok {ε ε' α : Type} (k : ε → ε') (a : α) :
    (Except.ok a : Except ε α).mapError k = .ok a := rfl

namespace Emit

variable {α β : Type}

/-- Code generation that complains without a place. -/
def erase (x : Emit α) : Emit α := fun n => (x n).mapError Complaint.erase

@[simp] theorem erase_pure (a : α) : (pure a : Emit α).erase = pure a := rfl

@[simp] theorem erase_bind (x : Emit α) (f : α → Emit β) :
    (x >>= f).erase = x.erase >>= fun a => (f a).erase := by
  funext n
  show (x n >>= fun r => f r.1 r.2).mapError Complaint.erase =
    ((x n).mapError Complaint.erase >>= fun r => (f r.1 r.2).mapError Complaint.erase)
  cases x n <;> rfl

@[simp] theorem erase_complain (span : Option Span) (fault : LowerFault) :
    (complain span fault : Emit α).erase = complain none fault := rfl

@[simp] theorem erase_fresh : fresh.erase = fresh := rfl

@[simp] theorem erase_lift (r : Except Complaint α) :
    (liftM r : Emit α).erase = liftM (r.mapError Complaint.erase) := by
  funext n
  cases r <;> rfl

theorem lift_error (c : Complaint) (f : α → Emit β) :
    (liftM (Except.error c : Except Complaint α) : Emit α) >>= f = fun _ => .error c := rfl

theorem lift_ok (a : α) (f : α → Emit β) :
    (liftM (Except.ok a : Except Complaint α) : Emit α) >>= f = f a := rfl

end Emit

/-! ## Calls -/

theorem findIdx?_name (params : List Param) (name : String) :
    (params.map Param.erase).findIdx? (·.name == name) = params.findIdx? (·.name == name) := by
  rw [List.findIdx?_map]
  rfl

theorem bindKeywords_erase (f : Function) : ∀ (keywords : List Keyword) (bound : List Nat),
    bindKeywords f.erase (eraseKeywords keywords) bound =
      (bindKeywords f keywords bound).mapError Complaint.erase
  | [], _ => rfl
  | .mk span name value :: ks, bound => by
    simp only [eraseKeywords, Keyword.erase, bindKeywords, Function.erase, findIdx?_name]
    cases f.params.findIdx? (·.name == name) with
    | none => rfl
    | some position =>
      dsimp only
      split
      · rfl
      · have ih := bindKeywords_erase f ks (position :: bound)
        rw [Function.erase] at ih
        rw [ih]
        cases bindKeywords f ks (position :: bound) <;> rfl

theorem missing_erase (params : List Param) (positions : List Nat) :
    (params.map Param.erase).zipIdx.find? (fun p => !positions.contains p.2) =
      (params.zipIdx.find? (fun p => !positions.contains p.2)).map fun p => (p.1.erase, p.2) := by
  rw [List.zipIdx_map, List.find?_map]
  rfl

theorem bindArguments_erase (span : Option Span) (f : Function) (given : Nat)
    (keywords : List Keyword) :
    bindArguments none f.erase given (eraseKeywords keywords) =
      (bindArguments span f given keywords).mapError Complaint.erase := by
  have hlength : f.erase.params.length = f.params.length := List.length_map _
  unfold bindArguments
  dsimp only
  rw [hlength, bindKeywords_erase]
  by_cases hsurplus : f.params.length < given
  · simp only [hsurplus, if_true]
    rfl
  · simp only [hsurplus, if_false]
    cases bindKeywords f keywords (List.range given) with
    | error c => rfl
    | ok positions =>
      simp only [mapError_ok, bind, Except.bind]
      rw [Function.erase, missing_erase]
      cases f.params.zipIdx.find? fun p => !(List.range given ++ positions).contains p.2 <;> rfl

theorem printOptions_erase : ∀ (keywords : List Keyword) (separator terminator : String),
    printOptions (eraseKeywords keywords) separator terminator =
      (printOptions keywords separator terminator).mapError Complaint.erase
  | [], _, _ => rfl
  | .mk span name (.text s value) :: ks, separator, terminator => by
    simp only [eraseKeywords, Keyword.erase, Expr.erase, printOptions]
    split
    · exact printOptions_erase ks _ _
    · split
      · exact printOptions_erase ks _ _
      · rfl
  | .mk _ _ (.number ..) :: _, _, _ | .mk _ _ (.name ..) :: _, _, _ | .mk _ _ (.member ..) :: _, _, _
  | .mk _ _ (.call ..) :: _, _, _ | .mk _ _ (.binary ..) :: _, _, _
  | .mk _ _ (.negate ..) :: _, _, _ | .mk _ _ (.compare ..) :: _, _, _ => rfl

theorem target_erase (site : Site) (span : Option Span) (callee : Expr) :
    target site.erase none callee.erase =
      ((target site span callee).map Target.erase).mapError Complaint.erase := by
  cases callee with
  | name s id =>
    simp only [target, Expr.erase, Site.erase, List.getElem?_map]
    cases site.scope.resolve? id with
    | none =>
      dsimp only
      split <;> rfl
    | some index =>
      dsimp only
      cases site.functions[index]? <;> rfl
  | _ => rfl

/-! ## Expressions -/

theorem eraseKeywords_isEmpty (ks : List Keyword) :
    (eraseKeywords ks).isEmpty = ks.isEmpty := by
  cases ks <;> rfl

theorem length_eraseExprs (es : List Expr) : (eraseExprs es).length = es.length := by
  rw [eraseExprs_eq_map, List.length_map]

theorem nameCode_erase (site : Site) (span : Option Span) (id : String) :
    nameCode site.erase none id = (nameCode site span id).erase := by
  unfold nameCode
  simp only [Site.scope_erase, Site.locals_erase]
  cases site.locals.idxOf? id with
  | some slot => rfl
  | none => by_cases hfun : (site.scope.resolve? id).isSome = true <;> simp [hfun]

section Expressions

variable {site : Site}

/-- Code for a call is that for its arguments and its callee. -/
theorem emit_call_erase {span : Option Span} {callee : Expr} {args : List Expr}
    {keywords : List Keyword}
    (hargs : emitArgs site.erase (eraseExprs args) = (emitArgs site args).erase)
    (hstore : storeArgs site.erase (eraseExprs args) = (storeArgs site args).erase)
    (hkeywords : storeKeywords site.erase (eraseKeywords keywords) =
      (storeKeywords site keywords).erase)
    (hprinted : printedArgs site.erase (eraseExprs args) = (printedArgs site args).erase) :
    (Expr.call span callee args keywords).erase.emit site.erase =
      ((Expr.call span callee args keywords).emit site).erase := by
  simp only [Expr.erase, Expr.emit, target_erase site span callee, Emit.erase_bind,
    Emit.erase_lift]
  cases target site span callee with
  | error c => rfl
  | ok t =>
    cases t with
    | function index f =>
      have hlength : f.erase.params.length = f.params.length := List.length_map _
      simp only [Except.map, mapError_ok, Emit.lift_ok, Target.erase, bindArguments_erase span,
        length_eraseExprs, eraseKeywords_isEmpty, hargs, hstore, hkeywords, hlength,
        Emit.erase_bind, Emit.erase_lift]
      congr 1
      funext positions
      split <;> simp only [Emit.erase_bind, Emit.erase_pure]
    | print =>
      simp only [printOptions_erase, hprinted, Except.map, mapError_ok, Emit.lift_ok,
        Target.erase, Emit.erase_bind, Emit.erase_lift, Emit.erase_pure]

mutual

theorem Expr.emit_erase : ∀ e : Expr, e.erase.emit site.erase = (e.emit site).erase
  | .number .. | .text .. | .member .. => rfl
  | .name span id => nameCode_erase site span id
  | .call _ _ args keywords => emit_call_erase (emitArgs_erase args) (storeArgs_erase args)
      (storeKeywords_erase keywords) (printedArgs_erase args)
  | .binary _ _ left right | .compare _ _ left right => by
    simp only [Expr.erase, Expr.emit, left.emit_erase, right.emit_erase, Emit.erase_bind,
      Emit.erase_pure]
  | .negate _ operand => by
    simp only [Expr.erase, Expr.emit, operand.emit_erase, Emit.erase_bind, Emit.erase_pure]

theorem emitArgs_erase : ∀ es : List Expr,
    emitArgs site.erase (eraseExprs es) = (emitArgs site es).erase
  | [] => rfl
  | e :: es => by
    simp only [eraseExprs, emitArgs, e.emit_erase, emitArgs_erase es, Emit.erase_bind,
      Emit.erase_pure]

theorem storeArgs_erase : ∀ es : List Expr,
    storeArgs site.erase (eraseExprs es) = (storeArgs site es).erase
  | [] => rfl
  | e :: es => by
    simp only [eraseExprs, storeArgs, e.emit_erase, storeArgs_erase es, Emit.erase_bind,
      Emit.erase_pure, Emit.erase_fresh]

theorem storeKeywords_erase : ∀ ks : List Keyword,
    storeKeywords site.erase (eraseKeywords ks) = (storeKeywords site ks).erase
  | [] => rfl
  | .mk _ _ value :: ks => by
    simp only [eraseKeywords, Keyword.erase, storeKeywords, value.emit_erase,
      storeKeywords_erase ks, Emit.erase_bind, Emit.erase_pure, Emit.erase_fresh]

theorem printedArgs_erase : ∀ es : List Expr,
    printedArgs site.erase (eraseExprs es) = (printedArgs site es).erase
  | [] => rfl
  | .text _ value :: es => by
    simp only [eraseExprs, Expr.erase, printedArgs, printedArgs_erase es, Emit.erase_bind,
      Emit.erase_pure]
  | e :: es => by
    by_cases htext : ∃ span value, e = .text span value
    · obtain ⟨span, value, rfl⟩ := htext
      simp only [eraseExprs, Expr.erase, printedArgs, printedArgs_erase es, Emit.erase_bind,
        Emit.erase_pure]
    · have hvalue : ∀ span value, e ≠ .text span value := fun span value he =>
        htext ⟨span, value, he⟩
      have herased : ∀ span value, e.erase ≠ .text span value := by
        cases e <;> simp_all [Expr.erase]
      rw [eraseExprs, printedArgs_cons_value hvalue, printedArgs_cons_value herased]
      simp only [e.emit_erase, printedArgs_erase es, Emit.erase_bind, Emit.erase_pure,
        Emit.erase_fresh]

end

/-! ## Statements -/

mutual

theorem Stmt.emit_erase : ∀ s : Stmt, s.erase.emit site.erase = (s.emit site).erase
  | .define .. | .pass _ => rfl
  | .give span none => by
    simp only [Stmt.erase, Stmt.emit, Site.inFunction_erase]
    by_cases hin : site.inFunction = true
    · simp [hin]
    · simp [hin]
      rfl
  | .give span (some value) => by
    simp only [Stmt.erase, Stmt.emit, value.emit_erase]
    cases hin : site.inFunction <;> simp only [Site.inFunction_erase, hin, Bool.not_false, Bool.not_true,
      if_true, Bool.false_eq_true, if_false, Emit.erase_bind, Emit.erase_pure, Emit.erase_complain]
  | .assign _ target value => by
    simp only [Stmt.erase, Stmt.emit, value.emit_erase]
    cases htarget : site.locals.idxOf? target <;>
      simp only [Site.locals_erase, htarget, Emit.erase_bind, Emit.erase_pure]
  | .eval _ value => by
    simp only [Stmt.erase, Stmt.emit, value.emit_erase, Emit.erase_bind, Emit.erase_pure]
  | .branch _ test body orelse => by
    simp only [Stmt.erase, Stmt.emit, test.emit_erase, eraseBlock_isEmpty, emitBlock_erase body,
      emitBlock_erase orelse, Emit.erase_bind]
    split <;> simp only [Emit.erase_bind, Emit.erase_pure, Emit.erase_complain]
  | .loop _ test body => by
    simp only [Stmt.erase, Stmt.emit, test.emit_erase, eraseBlock_isEmpty, emitBlock_erase body,
      Emit.erase_bind]
    split <;> simp only [Emit.erase_bind, Emit.erase_pure, Emit.erase_complain]

theorem emitBlock_erase : ∀ ss : List Stmt,
    emitBlock site.erase (eraseBlock ss) = (emitBlock site ss).erase
  | [] => rfl
  | s :: ss => by
    simp only [eraseBlock, emitBlock, s.emit_erase, emitBlock_erase ss, Emit.erase_bind,
      Emit.erase_pure]

end

end Expressions

/-! ## Functions -/

mutual

theorem Stmt.definitions_erase : ∀ s : Stmt, s.erase.definitions = s.definitions
  | .define _ _ _ body => by simp only [Stmt.erase, Stmt.definitions, definitionsIn_erase body]
  | .give _ none | .give _ (some _) | .assign .. | .eval .. | .branch .. | .loop .. | .pass _ => rfl

theorem definitionsIn_erase : ∀ block : List Stmt, definitionsIn (eraseBlock block) =
    definitionsIn block
  | [] => rfl
  | s :: ss => by
    simp only [eraseBlock, definitionsIn, s.definitions_erase, definitionsIn_erase ss]

end

theorem bindingsFrom_erase : ∀ (block : List Stmt) (next : Nat),
    bindingsFrom next (eraseBlock block) = bindingsFrom next block
  | [], _ => rfl
  | .define _ name _ body :: ss, next => by
    simp only [eraseBlock, Stmt.erase, bindingsFrom, definitionsIn_erase, bindingsFrom_erase ss]
  | .give _ none :: ss, next | .give _ (some _) :: ss, next | .assign .. :: ss, next
  | .eval .. :: ss, next | .branch .. :: ss, next | .loop .. :: ss, next | .pass _ :: ss, next =>
    bindingsFrom_erase ss next

mutual

theorem Stmt.functions_erase (scope : Scope) : ∀ (s : Stmt) (next : Nat),
    s.erase.functions scope next = (s.functions scope next).map Function.erase
  | .define _ _ _ body, next => by
    simp only [Stmt.erase, Stmt.functions, bindingsFrom_erase, functionsIn_erase _ body,
      List.map_cons, Function.erase]
  | .give _ none, _ | .give _ (some _), _ | .assign .., _ | .eval .., _ | .branch .., _
  | .loop .., _ | .pass _, _ => rfl

theorem functionsIn_erase (scope : Scope) : ∀ (block : List Stmt) (next : Nat),
    functionsIn scope next (eraseBlock block) = (functionsIn scope next block).map Function.erase
  | [], _ => rfl
  | s :: ss, next => by
    simp only [eraseBlock, functionsIn, s.functions_erase, s.definitions_erase,
      functionsIn_erase _ ss, List.map_append]

end

theorem Program.functions_erase (p : Program) :
    p.erase.functions = p.functions.map Function.erase := by
  unfold Program.functions Program.scope Program.erase
  rw [bindingsFrom_erase, functionsIn_erase]

mutual

theorem Stmt.targets_erase : ∀ s : Stmt, s.erase.targets = s.targets
  | .branch _ _ body orelse => by
    simp only [Stmt.erase, Stmt.targets, targetsIn_erase body, targetsIn_erase orelse]
  | .loop _ _ body => by simp only [Stmt.erase, Stmt.targets, targetsIn_erase body]
  | .define .. | .give _ none | .give _ (some _) | .assign .. | .eval .. | .pass _ => rfl

theorem targetsIn_erase : ∀ block : List Stmt, targetsIn (eraseBlock block) = targetsIn block
  | [] => rfl
  | s :: ss => by simp only [eraseBlock, targetsIn, s.targets_erase, targetsIn_erase ss]

end

theorem Function.locals_erase (f : Function) : f.erase.locals = f.locals := by
  unfold Function.locals Function.erase
  rw [targetsIn_erase, names_eraseParams]

theorem Site.body_erase (site : Site) (body : List Stmt) :
    site.erase.body (eraseBlock body) = (site.body body).mapError Complaint.erase :=
  congrFun (emitBlock_erase body) _

theorem Function.emit_erase (functions : List Function) (f : Function) :
    f.erase.emit (functions.map Function.erase) =
      (f.emit functions).mapError Complaint.erase := by
  have hbody : Site.body ⟨functions.map Function.erase, f.erase.scope, f.erase.locals, true⟩
      f.erase.body =
      (Site.body ⟨functions, f.scope, f.locals, true⟩ f.body).mapError Complaint.erase := by
    rw [f.locals_erase]
    exact Site.body_erase ⟨functions, f.scope, f.locals, true⟩ f.body
  unfold Function.emit
  rw [hbody]
  cases Site.body ⟨functions, f.scope, f.locals, true⟩ f.body <;> rfl

theorem Program.emit_erase (p : Program) :
    p.erase.emit = p.emit.mapError Complaint.erase := by
  have hscope : p.erase.scope = p.scope := congrArg (fun b => [b]) (bindingsFrom_erase p 0)
  unfold Program.emit
  rw [p.functions_erase, hscope]
  exact Site.body_erase ⟨p.functions, p.scope, [], false⟩ p

theorem aritiesAfter_erase : ∀ (fs : List Function) (before : List Nat),
    aritiesAfter before (fs.map Function.erase) = aritiesAfter before fs
  | [], _ => rfl
  | f :: fs, before => by
    have hlength : f.erase.params.length = f.params.length := List.length_map _
    simp only [List.map_cons, aritiesAfter, hlength, aritiesAfter_erase fs]

/-- The code of a program does not depend on where it stands. -/
theorem Program.code_erase (p : Program) : p.erase.code = p.code.mapError Complaint.erase := by
  unfold Program.code
  dsimp only
  rw [p.functions_erase, aritiesAfter_erase]
  refine bind_eq_mapError (mapM_mapError (fun f => ?_) p.functions) fun defined => ?_
  · have hlength : f.erase.params.length = f.params.length := List.length_map _
    rw [hlength]
    exact bind_eq_mapError (f.emit_erase p.functions) fun _ => rfl
  · exact bind_eq_mapError p.emit_erase fun _ => rfl

/-! ## Programs -/

theorem checkParams_erase (function : String) : ∀ (params : List Param) (before : List String),
    checkParams function before (params.map Param.erase) =
      (checkParams function before params).mapError Complaint.erase
  | [], _ => rfl
  | p :: ps, before => by
    simp only [List.map_cons, checkParams, Param.erase]
    split
    · rfl
    · exact checkParams_erase function ps _

mutual

theorem Stmt.checkDefinitions_erase : ∀ (s : Stmt) (allowed : Bool) (known : List String),
    s.erase.checkDefinitions allowed known =
      (s.checkDefinitions allowed known).mapError Complaint.erase
  | .define _ name params body, allowed, known => by
    simp only [Stmt.erase, Stmt.checkDefinitions, eraseBlock_isEmpty, checkParams_erase,
      checkDefinitionsIn_erase body]
    split
    · rfl
    · split
      · rfl
      · split
        · rfl
        · cases checkParams name [] params <;> rfl
  | .branch _ _ body orelse, _, _ => by
    simp only [Stmt.erase, Stmt.checkDefinitions, checkDefinitionsIn_erase body,
      checkDefinitionsIn_erase orelse]
    cases checkDefinitionsIn false [] body <;> rfl
  | .loop _ _ body, _, _ => checkDefinitionsIn_erase body false []
  | .give _ none, _, _ | .give _ (some _), _, _ | .assign .., _, _ | .eval .., _, _
  | .pass _, _, _ => rfl

theorem checkDefinitionsIn_erase : ∀ (block : List Stmt) (allowed : Bool) (known : List String),
    checkDefinitionsIn allowed known (eraseBlock block) =
      (checkDefinitionsIn allowed known block).mapError Complaint.erase
  | [], _, _ => rfl
  | s :: ss, allowed, known => by
    simp only [eraseBlock, checkDefinitionsIn, s.checkDefinitions_erase]
    cases s.checkDefinitions allowed known with
    | error c => rfl
    | ok _ =>
      simp only [mapError_ok, checkDefinitionsIn_erase ss]
      cases s with
      | give span value => cases value <;> rfl
      | _ => rfl

end

theorem mapError_eq_ok {ε α : Type} {x : Except ε α} {f : ε → ε} {a : α} :
    x.mapError f = .ok a ↔ x = .ok a := by
  cases x with
  | error e => exact iff_of_false (fun h => by cases h) (fun h => by cases h)
  | ok b => rfl

/-- Programs that are the same up to where they stand are lowered to the same module, if every node
of them stands somewhere. -/
theorem Program.lower_eq_of_erase {p q : Program} (herase : q.erase = p.erase)
    (hlocated : q.firstUnlocated? = none) {m : Module} (h : p.lower = .ok m) : q.lower = .ok m := by
  obtain ⟨-, hcheck, code, hcode, rfl⟩ := Program.lower_eq_ok h
  have hqcheck : checkDefinitionsIn true [] q = .ok () := by
    have hblock : eraseBlock q = eraseBlock p := herase
    rw [← mapError_eq_ok (f := Complaint.erase), ← checkDefinitionsIn_erase] at hcheck ⊢
    rwa [hblock]
  have hqcode : q.code = .ok code := by
    rw [← mapError_eq_ok (f := Complaint.erase), ← Program.code_erase] at hcode ⊢
    rwa [herase]
  have harities : aritiesAfter [] q.functions = p.arities := by
    rw [← aritiesAfter_erase q.functions, ← q.functions_erase, herase, p.functions_erase,
      aritiesAfter_erase, Program.arities]
  unfold Program.lower
  simp only [hlocated, hqcheck, hqcode, harities]

end Stampline
