import Stampline.Lowering.Code

/-!
# Emitted code as a relation

Code generation succeeds with some code exactly in the ways listed here, one rule for each form of a
program that can be lowered. What is to be said of emitted code is said by induction on the rules, so
that no argument has to look at how slots are counted or complaints are raised.
-/

namespace Stampline

namespace Emit

variable {α β : Type}

/-- A sequence succeeds exactly if both its parts do. -/
theorem bind_eq_ok {first : Emit α} {second : α → Emit β} {n m : Nat} {b : β} :
    (first >>= second) n = .ok (b, m) ↔
      ∃ a k, first n = .ok (a, k) ∧ second a k = .ok (b, m) := by
  show (first n >>= fun r => second r.1 r.2) = .ok (b, m) ↔ _
  cases first n with
  | error c => simp [bind, Except.bind]
  | ok r =>
    obtain ⟨a, k⟩ := r
    simp [bind, Except.bind, and_assoc]

theorem pure_eq_ok {a b : α} {n m : Nat} :
    (pure a : Emit α) n = .ok (b, m) ↔ a = b ∧ n = m := by
  show Except.ok (a, n) = Except.ok (b, m) ↔ _
  simp

theorem complain_eq_ok {span : Option Span} {fault : LowerFault} {n m : Nat} {a : α} :
    (complain span fault : Emit α) n = .ok (a, m) ↔ False := by
  simp [complain]

theorem fresh_eq_ok {n slot m : Nat} : fresh n = .ok (slot, m) ↔ n = slot ∧ n + 1 = m := by
  simp [fresh]

theorem lift_eq_ok {r : Except Complaint α} {n m : Nat} {a : α} :
    (liftM r : Emit α) n = .ok (a, m) ↔ r = .ok a ∧ n = m := by
  cases r with
  | error c => simp [liftM, monadLift, MonadLift.monadLift, StateT.lift, bind, Except.bind]
  | ok b => simp [liftM, monadLift, MonadLift.monadLift, StateT.lift, bind, Except.bind, pure,
      Except.pure]

end Emit

variable {site : Site}

/-! ## The rules -/

mutual

/-- `ExprCode site e n code m`: the code of the expression `e`, whose temporaries are the slots from
`n` up to `m`. -/
inductive ExprCode (site : Site) : Expr → Nat → List Code → Nat → Prop where
  | number {span value n} : ExprCode site (.number span value) n [.const64 value] n
  | local {span id slot n} (hid : site.locals.idxOf? id = some slot) :
      ExprCode site (.name span id) n [.localGet slot] n
  | global {span id n} (hid : site.locals.idxOf? id = none)
      (hfun : site.scope.resolve? id = none) :
      ExprCode site (.name span id) n (pushText id ++ [.call HostFunction.readGlobal.index]) n
  | call {span s id args index f positions n code m} (hfun : site.scope.resolve? id = some index)
      (hf : site.functions[index]? = some f)
      (hbind : bindArguments span f args.length [] = .ok positions)
      (hargs : ArgsCode site args n code m) :
      ExprCode site (.call span (.name s id) args []) n
        (code ++ [.call (HostFunction.count + index)]) m
  | callBound {span s id args keywords index f positions n code temps k keywordCode keywordTemps m}
      (hfun : site.scope.resolve? id = some index) (hf : site.functions[index]? = some f)
      (hkeywords : keywords ≠ [])
      (hbind : bindArguments span f args.length keywords = .ok positions)
      (hargs : StoredCode site args n code temps k)
      (hvalues : StoredCode site (keywords.map Keyword.value) k keywordCode keywordTemps m) :
      ExprCode site (.call span (.name s id) args keywords) n
        (code ++ keywordCode ++ pushBound f.params.length positions (temps ++ keywordTemps) ++
          [.call (HostFunction.count + index)]) m
  | print {span s args keywords separator terminator n code places m}
      (hfun : site.scope.resolve? printName = none)
      (hoptions : printOptions keywords " " "\n" = .ok (separator, terminator))
      (hargs : PrintedCode site args n code places m) :
      ExprCode site (.call span (.name s printName) args keywords) n
        (code ++ printCode separator terminator places ++ [.const64 0]) m
  | binary {span op left right n leftCode k rightCode m} (hleft : ExprCode site left n leftCode k)
      (hright : ExprCode site right k rightCode m) :
      ExprCode site (.binary span op left right) n (leftCode ++ rightCode ++ [op.code]) m
  | negate {span operand n code m} (hoperand : ExprCode site operand n code m) :
      ExprCode site (.negate span operand) n (.const64 0 :: code ++ [BinaryOp.code .sub]) m
  | compare {span op left right n leftCode k rightCode m} (hleft : ExprCode site left n leftCode k)
      (hright : ExprCode site right k rightCode m) :
      ExprCode site (.compare span op left right) n
        (leftCode ++ rightCode ++ [op.code, .numeric (.extend false)]) m

/-- The code that pushes arguments in turn. -/
inductive ArgsCode (site : Site) : List Expr → Nat → List Code → Nat → Prop where
  | nil {n} : ArgsCode site [] n [] n
  | cons {e es n code k rest m} (hhead : ExprCode site e n code k)
      (htail : ArgsCode site es k rest m) : ArgsCode site (e :: es) n (code ++ rest) m

/-- The code that stores values in temporaries in turn, and the temporaries. -/
inductive StoredCode (site : Site) : List Expr → Nat → List Code → List Nat → Nat → Prop where
  | nil {n} : StoredCode site [] n [] [] n
  | cons {e es n code k rest temps m} (hhead : ExprCode site e n code k)
      (htail : StoredCode site es (k + 1) rest temps m) :
      StoredCode site (e :: es) n (code ++ .localSet k :: rest) (k :: temps) m

/-- The code that stores the values to be printed in temporaries in turn, and what is printed. -/
inductive PrintedCode (site : Site) : List Expr → Nat → List Code → List Printed → Nat → Prop where
  | nil {n} : PrintedCode site [] n [] [] n
  | text {span value es n code places m} (htail : PrintedCode site es n code places m) :
      PrintedCode site (.text span value :: es) n code (.text value :: places) m
  | value {e es n code k rest places m} (htext : ∀ span value, e ≠ .text span value)
      (hhead : ExprCode site e n code k) (htail : PrintedCode site es (k + 1) rest places m) :
      PrintedCode site (e :: es) n (code ++ .localSet k :: rest) (.slot k :: places) m

end

mutual

/-- `StmtCode site s n code m`: the code of the statement `s`, whose temporaries are the slots from
`n` up to `m`. -/
inductive StmtCode (site : Site) : Stmt → Nat → List Code → Nat → Prop where
  | define {span name params body n} : StmtCode site (.define span name params body) n [] n
  | giveZero {span n} (hin : site.inFunction = true) :
      StmtCode site (.give span none) n [.const64 0, .ret] n
  | give {span value n code m} (hin : site.inFunction = true)
      (hvalue : ExprCode site value n code m) :
      StmtCode site (.give span (some value)) n (code ++ [.ret]) m
  | assignLocal {span target value slot n code m} (htarget : site.locals.idxOf? target = some slot)
      (hvalue : ExprCode site value n code m) :
      StmtCode site (.assign span target value) n (code ++ [.localSet slot]) m
  | assignGlobal {span target value n code m} (htarget : site.locals.idxOf? target = none)
      (hvalue : ExprCode site value n code m) :
      StmtCode site (.assign span target value) n
        (pushText target ++ code ++ [.call HostFunction.writeGlobal.index]) m
  | eval {span value n code m} (hvalue : ExprCode site value n code m) :
      StmtCode site (.eval span value) n (code ++ [.drop]) m
  | when {span test body n testCode k bodyCode m} (htest : ExprCode site test n testCode k)
      (hempty : body ≠ []) (hbody : BlockCode site body k bodyCode m) :
      StmtCode site (.branch span test body []) n
        (testCode ++ [.const64 0, Comparison.code .notEqual, .when .none bodyCode]) m
  | choose {span test body orelse n testCode k bodyCode l orelseCode m}
      (htest : ExprCode site test n testCode k) (hempty : body ≠ [])
      (hbody : BlockCode site body k bodyCode l) (hor : orelse ≠ [])
      (horelse : BlockCode site orelse l orelseCode m) :
      StmtCode site (.branch span test body orelse) n
        (testCode ++ [.const64 0, Comparison.code .notEqual, .choose .none bodyCode orelseCode]) m
  | loop {span test body n testCode k bodyCode m} (htest : ExprCode site test n testCode k)
      (hempty : body ≠ []) (hbody : BlockCode site body k bodyCode m) :
      StmtCode site (.loop span test body) n
        [.block .none [.loop .none
          (testCode ++ [.numeric (.isZero .w64), .brIf 1] ++ bodyCode ++ [.br 0])]] m
  | pass {span n} : StmtCode site (.pass span) n [] n

/-- The code of a block. -/
inductive BlockCode (site : Site) : List Stmt → Nat → List Code → Nat → Prop where
  | nil {n} : BlockCode site [] n [] n
  | cons {s ss n code k rest m} (hhead : StmtCode site s n code k)
      (htail : BlockCode site ss k rest m) : BlockCode site (s :: ss) n (code ++ rest) m

end

/-! ## Code generation follows the rules -/

theorem target_eq_function {span : Option Span} {callee : Expr} {index : Nat} {f : Function}
    (h : target site span callee = .ok (.function index f)) :
    ∃ s id, callee = .name s id ∧ site.scope.resolve? id = some index ∧
      site.functions[index]? = some f := by
  cases callee with
  | name s id =>
    cases hr : site.scope.resolve? id with
    | none => simp only [target, hr] at h; split at h <;> simp at h
    | some i =>
      cases hf : site.functions[i]? with
      | none => simp [target, hr, hf] at h
      | some g =>
        simp only [target, hr, hf, Except.ok.injEq, Target.function.injEq] at h
        obtain ⟨rfl, rfl⟩ := h
        exact ⟨s, id, rfl, hr, hf⟩
  | _ => simp [target] at h

theorem target_eq_print {span : Option Span} {callee : Expr}
    (h : target site span callee = .ok .print) :
    ∃ s, callee = .name s printName ∧ site.scope.resolve? printName = none := by
  cases callee with
  | name s id =>
    cases hr : site.scope.resolve? id with
    | none =>
      simp only [target, hr] at h
      split at h
      · rename_i hid
        subst hid
        exact ⟨s, rfl, hr⟩
      · simp at h
    | some i => cases hf : site.functions[i]? <;> simp [target, hr, hf] at h
  | _ => simp [target] at h

theorem nameCode_eq_ok {span : Option Span} {id : String} {n m : Nat} {code : List Code}
    (h : nameCode site span id n = .ok (code, m)) : ExprCode site (.name span id) n code m := by
  unfold nameCode at h
  cases hid : site.locals.idxOf? id with
  | some slot =>
    rw [hid] at h
    obtain ⟨rfl, rfl⟩ := Emit.pure_eq_ok.1 h
    exact .local hid
  | none =>
    rw [hid] at h
    cases hfun : site.scope.resolve? id with
    | some index => simp [hfun, Emit.complain_eq_ok] at h
    | none =>
      simp only [hfun, Option.isSome_none, Bool.false_eq_true, if_false] at h
      obtain ⟨rfl, rfl⟩ := Emit.pure_eq_ok.1 h
      exact .global hid hfun

/-- What is not a literal text is stored in a temporary before it is printed. -/
theorem printedArgs_cons_value {e : Expr} (htext : ∀ span value, e ≠ .text span value)
    (es : List Expr) :
    printedArgs site (e :: es) = (do
      let code ← e.emit site
      let temp ← Emit.fresh
      let (rest, places) ← printedArgs site es
      return (code ++ .localSet temp :: rest, .slot temp :: places)) := by
  cases e with
  | text span value => exact absurd rfl (htext span value)
  | _ => rfl

mutual

theorem Expr.emit_eq_ok : ∀ (e : Expr) {n m : Nat} {code : List Code},
    e.emit site n = .ok (code, m) → ExprCode site e n code m
  | .number span value, n, m, code, h => by
    obtain ⟨rfl, rfl⟩ := Emit.pure_eq_ok.1 h
    exact .number
  | .text span value, n, m, code, h => by
    simp [Expr.emit, Emit.complain_eq_ok] at h
  | .name span id, n, m, code, h => nameCode_eq_ok h
  | .member span receiver id, n, m, code, h => by
    simp [Expr.emit, Emit.complain_eq_ok] at h
  | .call span callee args keywords, n, m, code, h => by
    simp only [Expr.emit, Emit.bind_eq_ok, Emit.lift_eq_ok] at h
    obtain ⟨t, _, ⟨ht, rfl⟩, h⟩ := h
    cases t with
    | function index f =>
      obtain ⟨s, id, rfl, hfun, hf⟩ := target_eq_function ht
      simp only [Emit.bind_eq_ok, Emit.lift_eq_ok] at h
      obtain ⟨positions, _, ⟨hbind, rfl⟩, h⟩ := h
      split at h
      · rename_i hk
        obtain rfl := List.isEmpty_iff.1 hk
        simp only [Emit.bind_eq_ok, Emit.pure_eq_ok] at h
        obtain ⟨argsCode, _, hargs, rfl, rfl⟩ := h
        exact .call hfun hf hbind (emitArgs_eq_ok args hargs)
      · rename_i hk
        simp only [Emit.bind_eq_ok, Emit.pure_eq_ok] at h
        obtain ⟨⟨argsCode, temps⟩, k, hargs, ⟨keywordCode, keywordTemps⟩, _, hvalues, rfl, rfl⟩ := h
        exact .callBound hfun hf (by simpa using hk) hbind (storeArgs_eq_ok args hargs)
          (storeKeywords_eq_ok keywords hvalues)
    | print =>
      obtain ⟨s, rfl, hfun⟩ := target_eq_print ht
      simp only [Emit.bind_eq_ok, Emit.lift_eq_ok, Emit.pure_eq_ok] at h
      obtain ⟨⟨separator, terminator⟩, _, ⟨hoptions, rfl⟩, ⟨argsCode, places⟩, _, hargs, rfl, rfl⟩ := h
      exact .print hfun hoptions (printedArgs_eq_ok args hargs)
  | .binary span op left right, n, m, code, h => by
    simp only [Expr.emit, Emit.bind_eq_ok, Emit.pure_eq_ok] at h
    obtain ⟨leftCode, k, hleft, rightCode, _, hright, rfl, rfl⟩ := h
    exact .binary (left.emit_eq_ok hleft) (right.emit_eq_ok hright)
  | .negate span operand, n, m, code, h => by
    simp only [Expr.emit, Emit.bind_eq_ok, Emit.pure_eq_ok] at h
    obtain ⟨operandCode, _, hoperand, rfl, rfl⟩ := h
    exact .negate (operand.emit_eq_ok hoperand)
  | .compare span op left right, n, m, code, h => by
    simp only [Expr.emit, Emit.bind_eq_ok, Emit.pure_eq_ok] at h
    obtain ⟨leftCode, k, hleft, rightCode, _, hright, rfl, rfl⟩ := h
    exact .compare (left.emit_eq_ok hleft) (right.emit_eq_ok hright)

theorem emitArgs_eq_ok : ∀ (es : List Expr) {n m : Nat} {code : List Code},
    emitArgs site es n = .ok (code, m) → ArgsCode site es n code m
  | [], n, m, code, h => by
    obtain ⟨rfl, rfl⟩ := Emit.pure_eq_ok.1 h
    exact .nil
  | e :: es, n, m, code, h => by
    simp only [emitArgs, Emit.bind_eq_ok, Emit.pure_eq_ok] at h
    obtain ⟨headCode, k, hhead, rest, _, htail, rfl, rfl⟩ := h
    exact .cons (e.emit_eq_ok hhead) (emitArgs_eq_ok es htail)

theorem storeArgs_eq_ok : ∀ (es : List Expr) {n m : Nat} {code : List Code} {temps : List Nat},
    storeArgs site es n = .ok ((code, temps), m) → StoredCode site es n code temps m
  | [], n, m, code, temps, h => by
    simp only [storeArgs, Emit.pure_eq_ok, Prod.mk.injEq] at h
    obtain ⟨⟨rfl, rfl⟩, rfl⟩ := h
    exact .nil
  | e :: es, n, m, code, temps, h => by
    simp only [storeArgs, Emit.bind_eq_ok, Emit.pure_eq_ok, Emit.fresh_eq_ok, Prod.mk.injEq] at h
    obtain ⟨headCode, _, hhead, _, _, ⟨rfl, rfl⟩, ⟨rest, temps⟩, _, htail, ⟨rfl, rfl⟩, rfl⟩ := h
    exact .cons (e.emit_eq_ok hhead) (storeArgs_eq_ok es htail)

theorem storeKeywords_eq_ok : ∀ (ks : List Keyword) {n m : Nat} {code : List Code}
    {temps : List Nat}, storeKeywords site ks n = .ok ((code, temps), m) →
      StoredCode site (ks.map Keyword.value) n code temps m
  | [], n, m, code, temps, h => by
    simp only [storeKeywords, Emit.pure_eq_ok, Prod.mk.injEq] at h
    obtain ⟨⟨rfl, rfl⟩, rfl⟩ := h
    exact .nil
  | .mk span name value :: ks, n, m, code, temps, h => by
    simp only [storeKeywords, Emit.bind_eq_ok, Emit.pure_eq_ok, Emit.fresh_eq_ok,
      Prod.mk.injEq] at h
    obtain ⟨headCode, _, hhead, _, _, ⟨rfl, rfl⟩, ⟨rest, temps⟩, _, htail, ⟨rfl, rfl⟩, rfl⟩ := h
    exact .cons (value.emit_eq_ok hhead) (storeKeywords_eq_ok ks htail)

theorem printedArgs_eq_ok : ∀ (es : List Expr) {n m : Nat} {code : List Code}
    {places : List Printed}, printedArgs site es n = .ok ((code, places), m) →
      PrintedCode site es n code places m
  | [], n, m, code, places, h => by
    simp only [printedArgs, Emit.pure_eq_ok, Prod.mk.injEq] at h
    obtain ⟨⟨rfl, rfl⟩, rfl⟩ := h
    exact .nil
  | e :: es, n, m, code, places, h => by
    by_cases htext : ∃ span value, e = .text span value
    · obtain ⟨span, value, rfl⟩ := htext
      simp only [printedArgs, Emit.bind_eq_ok, Emit.pure_eq_ok, Prod.mk.injEq] at h
      obtain ⟨⟨rest, places⟩, _, htail, ⟨rfl, rfl⟩, rfl⟩ := h
      exact .text (printedArgs_eq_ok es htail)
    · have htext : ∀ span value, e ≠ .text span value := fun span value he =>
        htext ⟨span, value, he⟩
      simp only [printedArgs_cons_value htext, Emit.bind_eq_ok, Emit.pure_eq_ok, Emit.fresh_eq_ok,
        Prod.mk.injEq] at h
      obtain ⟨headCode, _, hhead, _, _, ⟨rfl, rfl⟩, ⟨rest, places⟩, _, htail, ⟨rfl, rfl⟩, rfl⟩ := h
      exact .value htext (e.emit_eq_ok hhead) (printedArgs_eq_ok es htail)

end

mutual

theorem Stmt.emit_eq_ok : ∀ (s : Stmt) {n m : Nat} {code : List Code},
    s.emit site n = .ok (code, m) → StmtCode site s n code m
  | .define span name params body, n, m, code, h => by
    obtain ⟨rfl, rfl⟩ := Emit.pure_eq_ok.1 h
    exact .define
  | .give span value, n, m, code, h => by
    cases hin : site.inFunction with
    | false => simp [Stmt.emit, hin, Emit.bind_eq_ok, Emit.complain_eq_ok] at h
    | true =>
      cases value with
      | none =>
        simp only [Stmt.emit, hin, Emit.pure_eq_ok, Bool.not_true, Bool.false_eq_true,
          if_false] at h
        obtain ⟨rfl, rfl⟩ := h
        exact .giveZero hin
      | some value =>
        simp only [Stmt.emit, hin, Emit.bind_eq_ok, Emit.pure_eq_ok, Bool.not_true,
          Bool.false_eq_true, if_false] at h
        obtain ⟨valueCode, _, hvalue, rfl, rfl⟩ := h
        exact .give hin (value.emit_eq_ok hvalue)
  | .assign span target value, n, m, code, h => by
    unfold Stmt.emit at h
    cases htarget : site.locals.idxOf? target with
    | some slot =>
      simp only [htarget, Emit.bind_eq_ok, Emit.pure_eq_ok] at h
      obtain ⟨valueCode, _, hvalue, rfl, rfl⟩ := h
      exact .assignLocal htarget (value.emit_eq_ok hvalue)
    | none =>
      simp only [htarget, Emit.bind_eq_ok, Emit.pure_eq_ok] at h
      obtain ⟨valueCode, _, hvalue, rfl, rfl⟩ := h
      exact .assignGlobal htarget (value.emit_eq_ok hvalue)
  | .eval span value, n, m, code, h => by
    simp only [Stmt.emit, Emit.bind_eq_ok, Emit.pure_eq_ok] at h
    obtain ⟨valueCode, _, hvalue, rfl, rfl⟩ := h
    exact .eval (value.emit_eq_ok hvalue)
  | .branch span test [] orelse, n, m, code, h => by
    simp [Stmt.emit, Emit.bind_eq_ok, Emit.complain_eq_ok] at h
  | .branch span test (s :: ss) [], n, m, code, h => by
    simp only [Stmt.emit, emitBlock.eq_1, List.isEmpty_cons, List.isEmpty_nil, Bool.not_true,
      Bool.false_eq_true, if_false, Emit.bind_eq_ok, Emit.pure_eq_ok] at h
    obtain ⟨testCode, k, htest, bodyCode, _, hbody, _, _, ⟨rfl, rfl⟩, rfl, rfl⟩ := h
    exact .when (test.emit_eq_ok htest) (by simp) (emitBlock_eq_ok (s :: ss) hbody)
  | .branch span test (s :: ss) (r :: rs), n, m, code, h => by
    simp only [Stmt.emit, List.isEmpty_cons, Bool.not_false, Bool.false_eq_true, if_false, if_true,
      Emit.bind_eq_ok, Emit.pure_eq_ok] at h
    obtain ⟨testCode, k, htest, bodyCode, l, hbody, orelseCode, _, horelse, rfl, rfl⟩ := h
    exact .choose (test.emit_eq_ok htest) (by simp) (emitBlock_eq_ok (s :: ss) hbody) (by simp)
      (emitBlock_eq_ok (r :: rs) horelse)
  | .loop span test [], n, m, code, h => by
    simp [Stmt.emit, Emit.bind_eq_ok, Emit.complain_eq_ok] at h
  | .loop span test (s :: ss), n, m, code, h => by
    simp only [Stmt.emit, List.isEmpty_cons, Bool.false_eq_true, if_false, Emit.bind_eq_ok,
      Emit.pure_eq_ok] at h
    obtain ⟨testCode, k, htest, bodyCode, _, hbody, rfl, rfl⟩ := h
    exact .loop (test.emit_eq_ok htest) (by simp) (emitBlock_eq_ok (s :: ss) hbody)
  | .pass span, n, m, code, h => by
    obtain ⟨rfl, rfl⟩ := Emit.pure_eq_ok.1 h
    exact .pass

theorem emitBlock_eq_ok : ∀ (ss : List Stmt) {n m : Nat} {code : List Code},
    emitBlock site ss n = .ok (code, m) → BlockCode site ss n code m
  | [], n, m, code, h => by
    obtain ⟨rfl, rfl⟩ := Emit.pure_eq_ok.1 h
    exact .nil
  | s :: ss, n, m, code, h => by
    simp only [emitBlock, Emit.bind_eq_ok, Emit.pure_eq_ok] at h
    obtain ⟨headCode, k, hhead, rest, _, htail, rfl, rfl⟩ := h
    exact .cons (s.emit_eq_ok hhead) (emitBlock_eq_ok ss htail)

end

/-! ## Code of functions -/

theorem Function.emit_eq_ok {functions : List Function} {f : Function} {code : List Code}
    {slots : Nat} (h : f.emit functions = .ok (code, slots)) :
    ∃ body, BlockCode ⟨functions, f.scope, f.locals, true⟩ f.body f.locals.length body slots ∧
      code = body ++ [.const64 0] := by
  unfold Function.emit at h
  cases hbody : Site.body ⟨functions, f.scope, f.locals, true⟩ f.body with
  | error c => simp [hbody, bind, Except.bind] at h
  | ok r =>
    obtain ⟨body, slots'⟩ := r
    simp only [hbody, bind, Except.bind, pure, Except.pure, Except.ok.injEq, Prod.mk.injEq] at h
    obtain ⟨rfl, rfl⟩ := h
    exact ⟨body, emitBlock_eq_ok _ hbody, rfl⟩

theorem Program.emit_eq_ok {p : Program} {code : List Code} {slots : Nat}
    (h : p.emit = .ok (code, slots)) :
    BlockCode ⟨p.functions, p.scope, [], false⟩ p 0 code slots := emitBlock_eq_ok p h

/-! ## Slots -/

mutual

/-- Slots are only ever taken. -/
theorem ExprCode.slots_le {e : Expr} {n m : Nat} {code : List Code} :
    ExprCode site e n code m → n ≤ m
  | .number | .local _ | .global _ _ => Nat.le_refl _
  | .call _ _ _ hargs => hargs.slots_le
  | .callBound _ _ _ _ hargs hvalues => Nat.le_trans hargs.slots_le hvalues.slots_le
  | .print _ _ hargs => hargs.slots_le
  | .binary hleft hright | .compare hleft hright => Nat.le_trans hleft.slots_le hright.slots_le
  | .negate hoperand => hoperand.slots_le

theorem ArgsCode.slots_le {es : List Expr} {n m : Nat} {code : List Code} :
    ArgsCode site es n code m → n ≤ m
  | .nil => Nat.le_refl _
  | .cons hhead htail => Nat.le_trans hhead.slots_le htail.slots_le

theorem StoredCode.slots_le {es : List Expr} {n m : Nat} {code : List Code} {temps : List Nat} :
    StoredCode site es n code temps m → n ≤ m
  | .nil => Nat.le_refl _
  | .cons hhead htail => Nat.le_trans hhead.slots_le (Nat.le_of_succ_le htail.slots_le)

theorem PrintedCode.slots_le {es : List Expr} {n m : Nat} {code : List Code}
    {places : List Printed} : PrintedCode site es n code places m → n ≤ m
  | .nil => Nat.le_refl _
  | .text htail => htail.slots_le
  | .value _ hhead htail => Nat.le_trans hhead.slots_le (Nat.le_of_succ_le htail.slots_le)

end

/-- Every value has a temporary of its own. -/
theorem StoredCode.length_temps {es : List Expr} {n m : Nat} {code : List Code}
    {temps : List Nat} : StoredCode site es n code temps m → temps.length = es.length
  | .nil => rfl
  | .cons _ htail => congrArg (· + 1) htail.length_temps

theorem StoredCode.temps_lt {es : List Expr} {n m : Nat} {code : List Code} {temps : List Nat} :
    StoredCode site es n code temps m → ∀ t ∈ temps, t < m
  | .nil, t, ht => absurd ht List.not_mem_nil
  | .cons _ htail, t, ht => by
    have := htail.slots_le
    rcases List.mem_cons.1 ht with rfl | ht
    · omega
    · exact htail.temps_lt t ht

mutual

theorem StmtCode.slots_le {s : Stmt} {n m : Nat} {code : List Code} :
    StmtCode site s n code m → n ≤ m
  | .define | .giveZero _ | .pass => Nat.le_refl _
  | .give _ hvalue | .assignLocal _ hvalue | .assignGlobal _ hvalue | .eval hvalue =>
    hvalue.slots_le
  | .when htest _ hbody | .loop htest _ hbody => Nat.le_trans htest.slots_le hbody.slots_le
  | .choose htest _ hbody _ horelse =>
    Nat.le_trans htest.slots_le (Nat.le_trans hbody.slots_le horelse.slots_le)

theorem BlockCode.slots_le {ss : List Stmt} {n m : Nat} {code : List Code} :
    BlockCode site ss n code m → n ≤ m
  | .nil => Nat.le_refl _
  | .cons hhead htail => Nat.le_trans hhead.slots_le htail.slots_le

end

end Stampline
