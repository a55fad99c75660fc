import Stampline.Evaluation.Program

/-!
# Relations that evaluation keeps

A relation of evaluations that is kept by each thing the evaluator does, one clause for each, relates
what a program does within some limits to what it does within others. What is the same for every
program, such as the faults it may end in or what limits have to do with its result, is a relation of
this kind.
-/

namespace Stampline

/-- Everything that is done in an evaluation keeps the relation `Q`, functions being entered within
`limits` on the left side and within `limits'` on the right. -/
structure Parametric (limits limits' : Limits) (Q : ∀ {α : Type}, Eval α → Eval α → Prop) :
    Prop where
  pure : ∀ {α : Type} (value : α), Q (Pure.pure value : Eval α) (Pure.pure value)
  bind : ∀ {α β : Type} {x y : Eval α} {f g : α → Eval β}, Q x y → (∀ value, Q (f value) (g value)) →
    Q (x >>= f) (y >>= g)
  stuck : ∀ {α : Type}, Q (Eval.stuck : Eval α) .stuck
  unfinished : ∀ {α : Type}, Q (Eval.unfinished : Eval α) .unfinished
  readGlobal : ∀ name, Q (Eval.readGlobal name) (Eval.readGlobal name)
  writeGlobal : ∀ name value, Q (Eval.writeGlobal name value) (Eval.writeGlobal name value)
  print : ∀ p, Q (Eval.print p) (Eval.print p)
  apply : ∀ (op : BinaryOp) a b, Q (Eval.ofExcept (op.apply a b)) (Eval.ofExcept (op.apply a b))
  enter : ∀ {α : Type} live {x y : Eval α}, Q x y → Q (limits.enter live x) (limits'.enter live y)

namespace Parametric

variable {limits limits' : Limits} {Q : ∀ {α : Type}, Eval α → Eval α → Prop} {α : Type}

section Lists

theorem evaluateAll (h : Parametric limits limits' Q) {evaluate evaluate' : Nat → Expr → Eval Int64}
    (heval : ∀ waiting e, Q (evaluate waiting e) (evaluate' waiting e)) (kept : Nat) :
    ∀ (es : List Expr) (waiting : Nat), Q (Stampline.evaluateAll evaluate kept waiting es)
      (Stampline.evaluateAll evaluate' kept waiting es)
  | [], _ => h.pure _
  | e :: es, waiting =>
    h.bind (heval waiting e) fun _ =>
      h.bind (h.evaluateAll heval kept es (waiting + kept)) fun _ => h.pure _

theorem ofArguments (h : Parametric limits limits' Q) {evaluate evaluate' : Expr → Eval Int64}
    (heval : ∀ e, Q (evaluate e) (evaluate' e)) (es : List Expr) :
    Q (es.mapM (Item.ofArgument evaluate)) (es.mapM (Item.ofArgument evaluate')) := by
  induction es with
  | nil => exact h.pure _
  | cons e es ih =>
    have hitem : Q (Item.ofArgument evaluate e) (Item.ofArgument evaluate' e) := by
      cases e with
      | text span value => exact h.pure _
      | _ => exact h.bind (heval _) fun _ => h.pure _
    rw [List.mapM_cons, List.mapM_cons]
    exact h.bind hitem fun _ => h.bind ih fun _ => h.pure _

theorem executeAll (h : Parametric limits limits' Q) {execute execute' : Bindings → Stmt → Eval Flow}
    (hexec : ∀ locals s, Q (execute locals s) (execute' locals s)) :
    ∀ (ss : List Stmt) (locals : Bindings),
      Q (Stampline.executeAll execute locals ss) (Stampline.executeAll execute' locals ss)
  | [], _ => h.pure _
  | s :: ss, locals => by
    refine h.bind (hexec locals s) fun flow => ?_
    cases flow with
    | next locals => exact h.executeAll hexec ss locals
    | leave value => exact h.pure _

end Lists

/-- What is said of all that a program is made of, at some fuel. -/
structure At (limits limits' : Limits) (Q : ∀ {α : Type}, Eval α → Eval α → Prop) (fuel : Nat) :
    Prop where
  evaluate : ∀ live waiting around locals e, Q (Expr.evaluate limits fuel live waiting around locals e)
    (Expr.evaluate limits' fuel live waiting around locals e)
  call : ∀ live waiting d locals, Q (Definition.call limits fuel live waiting d locals)
    (Definition.call limits' fuel live waiting d locals)
  execute : ∀ live around locals s, Q (Stmt.execute limits fuel live around locals s)
    (Stmt.execute limits' fuel live around locals s)

variable {fuel : Nat}

theorem evaluate_succ (h : Parametric limits limits' Q) (hfuel : At limits limits' Q fuel)
    (live : List Activation) (waiting : Nat) (around : List (List Stmt)) (locals : Bindings)
    (e : Expr) : Q (Expr.evaluate limits (fuel + 1) live waiting around locals e)
      (Expr.evaluate limits' (fuel + 1) live waiting around locals e) := by
  have hexpr : ∀ waiting e, Q (Expr.evaluate limits fuel live waiting around locals e)
      (Expr.evaluate limits' fuel live waiting around locals e) :=
    fun waiting => hfuel.evaluate live waiting around locals
  rw [Expr.evaluate.eq_def, Expr.evaluate.eq_def limits']
  dsimp only
  split
  · exact h.pure _
  · split
    · exact h.pure _
    · split
      · exact h.stuck
      · exact h.readGlobal _
  · split
    · refine h.bind (h.evaluateAll hexpr _ _ _) fun values => ?_
      refine h.bind (h.evaluateAll hexpr _ _ _) fun bound => ?_
      split
      · exact hfuel.call live waiting _ _
      · exact h.stuck
    · split
      · refine h.bind (h.ofArguments (hexpr waiting) _) fun items => ?_
        split
        · exact h.bind (h.print _) fun _ => h.pure _
        · exact h.stuck
      · exact h.stuck
  · exact h.bind (hexpr _ _) fun a => h.bind (hexpr _ _) fun b => h.apply _ a b
  · exact h.bind (hexpr _ _) fun a => h.pure _
  · exact h.bind (hexpr _ _) fun a => h.bind (hexpr _ _) fun b => h.pure _
  · exact h.stuck

theorem call_succ (h : Parametric limits limits' Q) (hfuel : At limits limits' Q fuel)
    (live : List Activation) (waiting : Nat) (d : Definition) (locals : Bindings) :
    Q (Definition.call limits (fuel + 1) live waiting d locals)
      (Definition.call limits' (fuel + 1) live waiting d locals) := by
  refine h.enter _ (h.bind (h.executeAll (hfuel.execute _ _) d.body locals) fun flow => ?_)
  cases flow with
  | next locals => exact h.pure _
  | leave value => exact h.pure _

theorem execute_succ (h : Parametric limits limits' Q) (hfuel : At limits limits' Q fuel)
    (live : List Activation) (around : List (List Stmt)) (locals : Bindings) (s : Stmt) :
    Q (Stmt.execute limits (fuel + 1) live around locals s)
      (Stmt.execute limits' (fuel + 1) live around locals s) := by
  have hexpr : ∀ waiting e, Q (Expr.evaluate limits fuel live waiting around locals e)
      (Expr.evaluate limits' fuel live waiting around locals e) :=
    fun waiting => hfuel.evaluate live waiting around locals
  have hblock : ∀ ss, Q
      (Stampline.executeAll (fun locals s => s.execute limits fuel live around locals) locals ss)
      (Stampline.executeAll (fun locals s => s.execute limits' fuel live around locals) locals ss) :=
    fun ss => h.executeAll (hfuel.execute live around) ss locals
  cases s with
  | define span name params body => exact h.pure _
  | pass span => exact h.pure _
  | give span value =>
    cases value with
    | none => exact h.pure _
    | some value => exact h.bind (hexpr 0 value) fun _ => h.pure _
  | assign span target value =>
    rw [Stmt.execute, Stmt.execute]
    split
    · exact h.bind (hexpr 0 value) fun _ => h.pure _
    · exact h.bind (hexpr 2 value) fun _ => h.bind (h.writeGlobal target _) fun _ => h.pure _
  | eval span value => exact h.bind (hexpr 0 value) fun _ => h.pure _
  | branch span test body orelse => exact h.bind (hexpr 0 test) fun value => hblock _
  | loop span test body =>
    refine h.bind (hexpr 0 test) fun value => ?_
    split
    · exact h.pure _
    · refine h.bind (hblock body) fun flow => ?_
      cases flow with
      | next locals => exact hfuel.execute live around locals _
      | leave value => exact h.pure _

/-- The functions of the evaluator call each other with less fuel. -/
theorem all (h : Parametric limits limits' Q) (fuel : Nat) : At limits limits' Q fuel := by
  induction fuel with
  | zero =>
    refine ⟨fun _ _ _ _ _ => ?_, fun _ _ _ _ => ?_, fun _ _ _ _ => ?_⟩
    · rw [Expr.evaluate.eq_def, Expr.evaluate.eq_def limits']
      exact h.unfinished
    · rw [Definition.call.eq_def, Definition.call.eq_def limits']
      exact h.unfinished
    · rw [Stmt.execute.eq_def, Stmt.execute.eq_def limits']
      exact h.unfinished
  | succ fuel ih => exact ⟨h.evaluate_succ ih, h.call_succ ih, h.execute_succ ih⟩

/-- Evaluation keeps the relation. -/
theorem meaning (h : Parametric limits limits' Q) (p : Program) (fuel : Nat) :
    Q (p.meaning limits fuel) (p.meaning limits' fuel) := by
  refine h.enter _ (h.bind (h.executeAll ((h.all fuel).execute _ [p]) p ∅) fun flow => ?_)
  cases flow with
  | next locals => exact h.pure _
  | leave value => exact h.stuck

end Parametric

end Stampline
